import Mistlib.Overlay.Router

/-!
# Ping rounds and suspicion

Every room of a process pings the peers it is connected to and counts the rounds a peer stays
silent. With the round that reaches the configured count the peer becomes suspect, and the next
traffic from it ends the suspicion.

The counts are kept by peer in one table for the whole process. A member of two rooms is counted
by both and heard by either, and the suspicion one of them raised is ended in the room that
hears the peer first. `suspect_alternates` says when the rooms come out right all the same: no
room reaches the count on rounds of another one, and a suspected peer is first heard where it is
suspected. A run is a list of events, the latest first.
-/

namespace Mistlib.Overlay

def U32_MAX : Nat := 2 ^ 32 - 1
def OVERLAY_MSG_PING : Nat := 3

/-! ## The shared statistics -/

/-- `STATS.ping_health`: one record a peer, whatever the room. -/
abbrev PingStats := Table NodeId PingHealth

namespace PingStats

variable (health : PingStats) (nodeId : NodeId)

/-- A peer is about to be pinged: count the last round if nothing came back. -/
def notePingSent (timeoutCount : Nat) : Nat × PingStats :=
  let entry := (health.get nodeId).getD ⟨false, 0, false⟩
  let consecutiveMisses :=
    if entry.awaiting then min (entry.consecutiveMisses + 1) U32_MAX else 0
  let suspect :=
    if timeoutCount > 0 ∧ consecutiveMisses = timeoutCount then true else entry.suspect
  (consecutiveMisses, health.insert nodeId { awaiting := true, consecutiveMisses, suspect })

/-- Traffic from a peer: reset its count and take its suspicion. -/
def noteInboundActivity : Bool × PingStats :=
  match health.get nodeId with
  | none => (false, health)
  | some entry =>
    (entry.suspect,
      health.insert nodeId { awaiting := false, consecutiveMisses := 0, suspect := false })

end PingStats

/-! ## The tick and the pong -/

/-- One ping tick: the connected peers come from a hash map, each once, and a
message id is drawn for each frame. -/
structure PingTick where
  localNodeId : NodeId
  hopCount : Nat
  connected : List NodeId
  nodup : connected.Nodup
  now : Nat
  msgId : NodeId → Nat

/-- The pings of a tick; what does not serialize is left out. -/
def PingTick.sendPingAll (w : Wire) (t : PingTick) : List OverlayAction :=
  t.connected.filterMap fun target =>
    match w.serialize (OverlayEnvelope.new t.localNodeId target (t.msgId target) t.hopCount
      (.overlay { messageType := OVERLAY_MSG_PING, payload := toLeBytes t.now })) with
    | .ok data => some (.sendMessage target data .unreliable .control)
    | .error _ => none

/-- Count a round for every target and suspect those that reach the count with it. -/
def suspectActions (timeoutCount : Nat) :
    List NodeId → PingStats → List OverlayAction × PingStats
  | [], health => ([], health)
  | target :: targets, health =>
    let (misses, health) := health.notePingSent target timeoutCount
    let (actions, health) := suspectActions timeoutCount targets health
    (if timeoutCount > 0 ∧ misses = timeoutCount then .suspectDisconnected target :: actions
      else actions, health)

def PingTick.tickActions (w : Wire) (t : PingTick) (timeoutCount : Nat) (health : PingStats) :
    List OverlayAction × PingStats :=
  let (actions, health) := suspectActions timeoutCount t.connected health
  (actions ++ t.sendPingAll w, health)

def handlePong (source : NodeId) (payload : Bytes) (health : PingStats) :
    List OverlayAction × PingStats :=
  if payload.length < 8 then ([], health)
  else
    let (wasSuspect, health) := health.noteInboundActivity source
    (if wasSuspect then [.clearSuspect source] else [], health)

/-! ## Runs of many rooms -/

/-- What happens in a room: a ping tick, a frame over the link of a peer (a
duplicate too), or a pong a peer sent. -/
inductive LivenessEvent (ρ : Type) where
  | tick (room : ρ) (tick : PingTick)
  | frame (room : ρ) (link : NodeId)
  | pong (room : ρ) (source : NodeId) (payload : Bytes)

namespace LivenessEvent

variable {ρ : Type}

def room : LivenessEvent ρ → ρ
  | .tick room _ | .frame room _ | .pong room _ _ => room

/-- The actions an event gives its room, of a frame those on the link's liveness. -/
def apply (w : Wire) (timeoutCount : Nat) (health : PingStats) :
    LivenessEvent ρ → List OverlayAction × PingStats
  | .tick _ t => t.tickActions w timeoutCount health
  | .frame _ link =>
    let (wasSuspect, health) := health.noteInboundActivity link
    (if wasSuspect then [.clearSuspect link] else [], health)
  | .pong _ source payload => handlePong source payload health

def pings (peer : NodeId) : LivenessEvent ρ → Prop
  | .tick _ t => peer ∈ t.connected
  | _ => False

def hears (peer : NodeId) : LivenessEvent ρ → Prop
  | .tick _ _ => False
  | .frame _ link => link = peer
  | .pong _ source payload => source = peer ∧ 8 ≤ payload.length

instance (peer : NodeId) : (e : LivenessEvent ρ) → Decidable (e.pings peer)
  | .tick _ t => inferInstanceAs (Decidable (peer ∈ t.connected))
  | .frame .. | .pong .. => inferInstanceAs (Decidable False)

instance (peer : NodeId) : (e : LivenessEvent ρ) → Decidable (e.hears peer)
  | .tick .. => inferInstanceAs (Decidable False)
  | .frame _ link => inferInstanceAs (Decidable (link = peer))
  | .pong _ source payload => inferInstanceAs (Decidable (source = peer ∧ 8 ≤ payload.length))

theorem not_hears_of_pings {peer : NodeId} {e : LivenessEvent ρ} (h : e.pings peer) :
    ¬ e.hears peer := by
  cases e with
  | tick room t => exact id
  | frame room link | pong room source payload => exact absurd h id

end LivenessEvent

section Runs

variable {ρ : Type} [DecidableEq ρ] (w : Wire) (timeoutCount : Nat)

def healthAfter : List (LivenessEvent ρ) → PingStats
  | [] => ∅
  | e :: past => (e.apply w timeoutCount (healthAfter past)).2

def emitted (e : LivenessEvent ρ) (past : List (LivenessEvent ρ)) : List OverlayAction :=
  (e.apply w timeoutCount (healthAfter w timeoutCount past)).1

/-- Whether an action is about the liveness of a peer. -/
def concerns (peer : NodeId) (action : OverlayAction) : Bool :=
  decide (action = .suspectDisconnected peer ∨ action = .clearSuspect peer)

/-- What a room's own stream of actions says of the liveness of a peer, oldest first. -/
def stream (room : ρ) (peer : NodeId) : List (LivenessEvent ρ) → List OverlayAction
  | [] => []
  | e :: past =>
    stream room peer past ++
      if e.room = room then (emitted w timeoutCount e past).filter (concerns peer) else []

/-- The ping rounds of a peer, in all rooms, since it was last heard. -/
def rounds (peer : NodeId) : List (LivenessEvent ρ) → Nat
  | [] => 0
  | e :: past =>
    if e.hears peer then 0
    else if e.pings peer then rounds peer past + 1 else rounds peer past

/-- The ping rounds of a peer by one room since it was last heard. -/
def ownRounds (room : ρ) (peer : NodeId) : List (LivenessEvent ρ) → Nat
  | [] => 0
  | e :: past =>
    if e.hears peer then 0
    else if e.pings peer ∧ e.room = room then ownRounds room peer past + 1
    else ownRounds room peer past

/-- The room whose round reached the count since the peer was last heard. -/
def suspector (peer : NodeId) : List (LivenessEvent ρ) → Option ρ
  | [] => none
  | e :: past =>
    if e.hears peer then none
    else if e.pings peer ∧ rounds peer past = timeoutCount then some e.room
    else suspector peer past

end Runs

/-! ## What the table and the actions say of one peer -/

namespace PingStats

variable {health : PingStats} {nodeId peer : NodeId} {timeoutCount : Nat}

/-- The record of a peer once it is pinged. -/
def pinged (timeoutCount : Nat) (entry : Option PingHealth) : PingHealth :=
  let entry := entry.getD ⟨false, 0, false⟩
  let consecutiveMisses :=
    if entry.awaiting then min (entry.consecutiveMisses + 1) U32_MAX else 0
  { awaiting := true
    consecutiveMisses
    suspect :=
      if timeoutCount > 0 ∧ consecutiveMisses = timeoutCount then true else entry.suspect }

theorem notePingSent_eq :
    health.notePingSent nodeId timeoutCount =
      ((pinged timeoutCount (health.get nodeId)).consecutiveMisses,
        health.insert nodeId (pinged timeoutCount (health.get nodeId))) := rfl

theorem noteInboundActivity_fst :
    (health.noteInboundActivity nodeId).1 = ((health.get nodeId).map PingHealth.suspect).getD false := by
  unfold noteInboundActivity
  cases health.get nodeId <;> rfl

theorem get_noteInboundActivity :
    (health.noteInboundActivity nodeId).2.get peer =
      if peer = nodeId then (health.get nodeId).map fun _ => ⟨false, 0, false⟩
      else health.get peer := by
  unfold noteInboundActivity
  split
  · next hnone =>
    split
    · next heq => rw [heq, hnone, Option.map_none]
    · rfl
  · next entry hsome =>
    rw [hsome]
    exact Table.get_insert _ _ _ _

end PingStats

theorem concerns_iff {peer : NodeId} {action : OverlayAction} :
    concerns peer action = true ↔
      action = .suspectDisconnected peer ∨ action = .clearSuspect peer :=
  decide_eq_true_iff

section Peer

variable {timeoutCount : Nat} {peer : NodeId}

theorem suspectActions_cons (target : NodeId) (targets : List NodeId) (health : PingStats) :
    suspectActions timeoutCount (target :: targets) health =
      let entry := PingStats.pinged timeoutCount (health.get target)
      let rest := suspectActions timeoutCount targets (health.insert target entry)
      (if timeoutCount > 0 ∧ entry.consecutiveMisses = timeoutCount then
        .suspectDisconnected target :: rest.1 else rest.1, rest.2) := rfl

/-- A target that is not the peer leaves the peer's record alone, and so do
the targets after the peer. -/
theorem suspectActions_spec (timeoutCount : Nat) (peer : NodeId) {targets : List NodeId}
    (hnodup : targets.Nodup) (health : PingStats) :
    ((suspectActions timeoutCount targets health).2.get peer =
      if peer ∈ targets then some (PingStats.pinged timeoutCount (health.get peer))
      else health.get peer) ∧
    (suspectActions timeoutCount targets health).1.filter (concerns peer) =
      if peer ∈ targets ∧ timeoutCount > 0 ∧
          (PingStats.pinged timeoutCount (health.get peer)).consecutiveMisses = timeoutCount
      then [.suspectDisconnected peer] else [] := by
  induction targets generalizing health with
  | nil => exact ⟨rfl, rfl⟩
  | cons target targets ih =>
    obtain ⟨hnot, hnodup⟩ := List.nodup_cons.mp hnodup
    obtain ⟨hget, hfilter⟩ := ih hnodup (health.notePingSent target timeoutCount).2
    have hother : concerns peer (.suspectDisconnected target) = decide (target = peer) := by
      rw [Bool.eq_iff_iff, concerns_iff, decide_eq_true_iff]
      simp
    rw [PingStats.notePingSent_eq] at hget hfilter
    rw [suspectActions_cons]
    dsimp only at hget hfilter ⊢
    rw [hget, Table.get_insert]
    by_cases hpeer : target = peer
    · subst hpeer
      rw [if_neg fun h => hnot h.1] at hfilter
      simp only [List.mem_cons_self, if_neg hnot, if_true, true_and]
      by_cases hcrossed : timeoutCount > 0 ∧
          (PingStats.pinged timeoutCount (health.get target)).consecutiveMisses = timeoutCount
      · rw [if_pos hcrossed, if_pos hcrossed, List.filter_cons, hother, decide_eq_true rfl,
          if_pos rfl, hfilter]
      · rw [if_neg hcrossed, if_neg hcrossed, hfilter]
    · rw [Table.get_insert, if_neg (Ne.symm hpeer)] at hfilter
      simp only [List.mem_cons, Ne.symm hpeer, false_or, if_false, true_and]
      rw [← hfilter]
      by_cases hcrossed : timeoutCount > 0 ∧
          (PingStats.pinged timeoutCount (health.get target)).consecutiveMisses = timeoutCount
      · rw [if_pos hcrossed, List.filter_cons, hother, decide_eq_false hpeer,
          if_neg Bool.false_ne_true]
      · rw [if_neg hcrossed]

theorem filter_sendPingAll (w : Wire) (t : PingTick) :
    (t.sendPingAll w).filter (concerns peer) = [] := by
  rw [List.filter_eq_nil_iff]
  intro action hmem hconcerns
  obtain ⟨target, -, htarget⟩ := List.mem_filterMap.mp hmem
  split at htarget
  · cases htarget
    rcases concerns_iff.mp hconcerns with h | h <;> cases h
  · cases htarget

/-- The record of a peer that has been silent for `n` rounds. -/
def silentFor (timeoutCount n : Nat) : PingHealth where
  awaiting := decide (0 < n)
  consecutiveMisses := min (n - 1) U32_MAX
  suspect := decide (timeoutCount < n)

/-- A table entry of a peer that has been silent for `n` rounds; no entry is needed for none. -/
def Reflects (timeoutCount n : Nat) : Option PingHealth → Prop
  | none => n = 0
  | some entry => entry = silentFor timeoutCount n

theorem Reflects.pinged {n : Nat} {entry : Option PingHealth} (h : Reflects timeoutCount n entry)
    (hpos : 0 < timeoutCount) (hmax : timeoutCount ≤ U32_MAX) :
    PingStats.pinged timeoutCount entry = silentFor timeoutCount (n + 1) := by
  have hold : entry.getD ⟨false, 0, false⟩ = silentFor timeoutCount n := by
    cases entry with
    | none =>
      obtain rfl : n = 0 := h
      rfl
    | some entry => exact h
  have hmisses : (if (silentFor timeoutCount n).awaiting then
      min ((silentFor timeoutCount n).consecutiveMisses + 1) U32_MAX else 0) = min n U32_MAX := by
    simp only [silentFor, decide_eq_true_eq]
    split
    · omega
    · omega
  unfold PingStats.pinged
  rw [hold]
  dsimp only
  rw [hmisses, silentFor, silentFor, PingHealth.mk.injEq]
  refine ⟨(decide_eq_true (Nat.succ_pos n)).symm, rfl, ?_⟩
  split
  · exact (decide_eq_true (by omega)).symm
  · exact decide_eq_decide.mpr (by omega)

theorem Reflects.suspect {n : Nat} {entry : Option PingHealth}
    (h : Reflects timeoutCount n entry) :
    (entry.map PingHealth.suspect).getD false = decide (timeoutCount < n) := by
  cases entry with
  | none =>
    obtain rfl : n = 0 := h
    exact (decide_eq_false (Nat.not_lt_zero _)).symm
  | some entry =>
    obtain rfl : entry = _ := h
    rfl

theorem Reflects.heard (entry : Option PingHealth) :
    Reflects timeoutCount 0 (entry.map fun _ => (⟨false, 0, false⟩ : PingHealth)) := by
  cases entry <;> rfl

variable {ρ : Type} (w : Wire)

theorem reflects_healthAfter (peer : NodeId) (hpos : 0 < timeoutCount)
    (hmax : timeoutCount ≤ U32_MAX) (past : List (LivenessEvent ρ)) :
    Reflects timeoutCount (rounds peer past) ((healthAfter w timeoutCount past).get peer) := by
  induction past with
  | nil => exact rfl
  | cons e past ih =>
    cases e with
    | tick room t =>
      have hget := (suspectActions_spec timeoutCount peer t.nodup
        (healthAfter w timeoutCount past)).1
      change Reflects timeoutCount _
        ((suspectActions timeoutCount t.connected (healthAfter w timeoutCount past)).2.get peer)
      rw [hget, rounds, if_neg (by exact id)]
      by_cases hpings : peer ∈ t.connected
      · rw [if_pos hpings, if_pos (show LivenessEvent.pings peer (.tick room t) from hpings)]
        exact ih.pinged hpos hmax
      · rw [if_neg hpings, if_neg (show ¬ LivenessEvent.pings peer (.tick room t) from hpings)]
        exact ih
    | frame room link =>
      change Reflects timeoutCount _
        (((healthAfter w timeoutCount past).noteInboundActivity link).2.get peer)
      rw [PingStats.get_noteInboundActivity, rounds]
      by_cases hpeer : link = peer
      · subst hpeer
        rw [if_pos rfl, if_pos (by exact rfl)]
        exact .heard _
      · rw [if_neg (Ne.symm hpeer), if_neg (by exact hpeer), if_neg (by exact id)]
        exact ih
    | pong room source payload =>
      change Reflects timeoutCount _
        ((handlePong source payload (healthAfter w timeoutCount past)).2.get peer)
      rw [rounds]
      by_cases hshort : payload.length < 8
      · rw [handlePong, if_pos hshort, if_neg (by exact fun h => absurd h.2 (by omega)),
          if_neg (by exact id)]
        exact ih
      · rw [handlePong, if_neg hshort]
        change Reflects timeoutCount _
          (((healthAfter w timeoutCount past).noteInboundActivity source).2.get peer)
        rw [PingStats.get_noteInboundActivity]
        by_cases hpeer : source = peer
        · subst hpeer
          rw [if_pos rfl, if_pos (by exact ⟨rfl, Nat.le_of_not_lt hshort⟩)]
          exact .heard _
        · rw [if_neg (Ne.symm hpeer), if_neg (by exact fun h => hpeer h.1),
            if_neg (by exact id)]
          exact ih

theorem filter_clearSuspect {source : NodeId} (wasSuspect : Bool) :
    (if wasSuspect then [OverlayAction.clearSuspect source] else []).filter (concerns peer) =
      if source = peer ∧ wasSuspect = true then [.clearSuspect peer] else [] := by
  have hconcerns : concerns peer (.clearSuspect source) = decide (source = peer) := by
    rw [Bool.eq_iff_iff, concerns_iff, decide_eq_true_iff]
    simp
  cases wasSuspect with
  | false => simp
  | true =>
    simp only [if_true, List.filter_cons, hconcerns, List.filter_nil, and_true,
      decide_eq_true_eq]
    split
    · next heq => rw [heq]
    · rfl

theorem filter_emitted (hpos : 0 < timeoutCount) (hmax : timeoutCount ≤ U32_MAX)
    (e : LivenessEvent ρ) (past : List (LivenessEvent ρ)) :
    (emitted w timeoutCount e past).filter (concerns peer) =
      if e.hears peer then
        if timeoutCount < rounds peer past then [.clearSuspect peer] else []
      else if e.pings peer ∧ min (rounds peer past) U32_MAX = timeoutCount then
        [.suspectDisconnected peer]
      else [] := by
  have hreflects := reflects_healthAfter w peer hpos hmax past
  have hheard : ∀ {source : NodeId},
      (if (PingStats.noteInboundActivity (healthAfter w timeoutCount past) source).1 then
        [OverlayAction.clearSuspect source] else []).filter (concerns peer) =
      if source = peer then
        if timeoutCount < rounds peer past then [.clearSuspect peer] else []
      else [] := by
    intro source
    rw [filter_clearSuspect, PingStats.noteInboundActivity_fst]
    by_cases hpeer : source = peer
    · subst hpeer
      rw [hreflects.suspect, if_pos rfl]
      simp only [true_and, decide_eq_true_eq]
    · rw [if_neg hpeer, if_neg fun h => hpeer h.1]
  cases e with
  | tick room t =>
    have hspec := (suspectActions_spec timeoutCount peer t.nodup
      (healthAfter w timeoutCount past)).2
    change ((suspectActions timeoutCount t.connected (healthAfter w timeoutCount past)).1 ++
      t.sendPingAll w).filter (concerns peer) = _
    have hmisses : (silentFor timeoutCount (rounds peer past + 1)).consecutiveMisses =
        min (rounds peer past) U32_MAX := rfl
    rw [List.filter_append, filter_sendPingAll, List.append_nil, hspec,
      hreflects.pinged hpos hmax, hmisses,
      if_neg (show ¬ LivenessEvent.hears peer (.tick room t) from id)]
    refine if_congr ?_ rfl rfl
    exact and_congr_right fun _ => and_iff_right hpos
  | frame room link =>
    change (if (PingStats.noteInboundActivity (healthAfter w timeoutCount past) link).1 then
      [OverlayAction.clearSuspect link] else []).filter (concerns peer) = _
    rw [hheard, if_neg (show ¬ (LivenessEvent.pings peer (.frame room link) ∧ _) from fun h => h.1)]
    rfl
  | pong room source payload =>
    change (handlePong source payload (healthAfter w timeoutCount past)).1.filter
      (concerns peer) = _
    have hnot : ∀ {P : Prop}, ¬ (LivenessEvent.pings peer (.pong room source payload) ∧ P) :=
      fun h => h.1
    rw [if_neg hnot]
    by_cases hshort : payload.length < 8
    · rw [handlePong, if_pos hshort, if_neg (by exact fun h => absurd h.2 (by omega))]
      rfl
    · rw [handlePong, if_neg hshort]
      refine hheard.trans ?_
      refine if_congr ?_ rfl rfl
      exact (and_iff_left (Nat.le_of_not_lt hshort)).symm

variable {e : LivenessEvent ρ}

theorem mem_emitted_iff {action : OverlayAction} (h : concerns peer action = true)
    {past : List (LivenessEvent ρ)} :
    action ∈ emitted w timeoutCount e past ↔
      action ∈ (emitted w timeoutCount e past).filter (concerns peer) := by
  rw [List.mem_filter, and_iff_left h]

theorem suspect_mem_emitted (hpos : 0 < timeoutCount) (hmax : timeoutCount ≤ U32_MAX)
    {past : List (LivenessEvent ρ)} :
    .suspectDisconnected peer ∈ emitted w timeoutCount e past ↔
      e.pings peer ∧ min (rounds peer past) U32_MAX = timeoutCount := by
  rw [mem_emitted_iff w (concerns_iff.mpr (.inl rfl)), filter_emitted w hpos hmax]
  by_cases hhears : e.hears peer
  · rw [if_pos hhears]
    refine iff_of_false (fun h => ?_) fun h => e.not_hears_of_pings h.1 hhears
    split at h
    · cases List.mem_singleton.mp h
    · cases h
  · rw [if_neg hhears]
    split
    · next h => exact iff_of_true (List.mem_singleton_self _) h
    · next h => exact iff_of_false List.not_mem_nil h

theorem clear_mem_emitted (hpos : 0 < timeoutCount) (hmax : timeoutCount ≤ U32_MAX)
    {past : List (LivenessEvent ρ)} (hhears : e.hears peer) (hsilent : timeoutCount < rounds peer past) :
    .clearSuspect peer ∈ emitted w timeoutCount e past := by
  rw [mem_emitted_iff w (concerns_iff.mpr (.inr rfl)), filter_emitted w hpos hmax,
    if_pos hhears, if_pos hsilent]
  exact List.mem_singleton_self _

/-! ## Suspect and clear in turn -/

/-- Suspect and clear in turn, beginning with suspect. -/
def Alternates (peer : NodeId) (actions : List OverlayAction) : Prop :=
  ∀ i action, actions[i]? = some action →
    action = if i % 2 = 0 then .suspectDisconnected peer else .clearSuspect peer

theorem alternates_concat {actions : List OverlayAction} {action : OverlayAction} :
    Alternates peer (actions ++ [action]) ↔
      Alternates peer actions ∧
        action = if actions.length % 2 = 0 then .suspectDisconnected peer
          else .clearSuspect peer := by
  constructor
  · intro h
    refine ⟨fun i other hi => h i other ?_, h _ _ List.getElem?_concat_length⟩
    obtain ⟨hlt, -⟩ := List.getElem?_eq_some_iff.mp hi
    rw [List.getElem?_append_left hlt, hi]
  · rintro ⟨h, hlast⟩ i other hi
    rcases Nat.lt_or_ge i actions.length with hlt | hge
    · rw [List.getElem?_append_left hlt] at hi
      exact h i other hi
    · obtain ⟨hle, -⟩ := List.getElem?_eq_some_iff.mp hi
      rw [List.length_append, List.length_singleton] at hle
      obtain rfl : i = actions.length := by omega
      rw [List.getElem?_concat_length, Option.some.injEq] at hi
      rw [← hi, hlast]

variable [DecidableEq ρ]

/-- What the rooms of a run see of the suspicions of a peer, if it is right. -/
structure SuspectsInTurn (timeoutCount : Nat) (peer : NodeId) (run : List (LivenessEvent ρ)) :
    Prop where
  alternate : ∀ room, Alternates peer (stream w timeoutCount room peer run)
  silent : ∀ e past, e :: past <:+ run →
    .suspectDisconnected peer ∈ emitted w timeoutCount e past →
    timeoutCount ≤ ownRounds e.room peer past
  cleared : ∀ e past, e :: past <:+ run → e.hears peer →
    (stream w timeoutCount e.room peer past).getLast? = some (.suspectDisconnected peer) →
    .clearSuspect peer ∈ emitted w timeoutCount e past

/-- An event that comes out right for a peer whose rooms share its record:
the round that reaches the count does so on rounds of its own room, no later
round finds the count at its largest value, and a suspected peer is heard in
the room that suspects it. -/
structure KeepsApart (timeoutCount : Nat) (peer : NodeId) (e : LivenessEvent ρ)
    (past : List (LivenessEvent ρ)) : Prop where
  own : e.pings peer → rounds peer past = timeoutCount →
    ownRounds e.room peer past = timeoutCount
  counted : e.pings peer → timeoutCount < rounds peer past → timeoutCount < U32_MAX
  heard : e.hears peer → ∀ room, suspector timeoutCount peer past = some room → room = e.room

omit [DecidableEq ρ] in
theorem suspector_isSome (past : List (LivenessEvent ρ)) :
    (suspector timeoutCount peer past).isSome ↔ timeoutCount < rounds peer past := by
  induction past with
  | nil => exact iff_of_false Bool.false_ne_true (Nat.not_lt_zero _)
  | cons e past ih =>
    rw [suspector, rounds]
    by_cases hhears : e.hears peer
    · rw [if_pos hhears, if_pos hhears]
      exact iff_of_false Bool.false_ne_true (Nat.not_lt_zero _)
    · rw [if_neg hhears, if_neg hhears]
      by_cases hpings : e.pings peer
      · by_cases hreached : rounds peer past = timeoutCount
        · rw [if_pos ⟨hpings, hreached⟩, if_pos hpings, hreached]
          exact iff_of_true rfl (Nat.lt_succ_self _)
        · rw [if_neg fun h => hreached h.2, if_pos hpings, ih]
          omega
      · rw [if_neg fun h => hpings h.1, if_neg hpings, ih]

theorem ownRounds_add_le (peer : NodeId) {room other : ρ} (hne : room ≠ other)
    (past : List (LivenessEvent ρ)) :
    ownRounds room peer past + ownRounds other peer past ≤ rounds peer past := by
  induction past with
  | nil => exact Nat.le_refl 0
  | cons e past ih =>
    rw [ownRounds, ownRounds, rounds]
    by_cases hhears : e.hears peer
    · rw [if_pos hhears, if_pos hhears, if_pos hhears]
    · rw [if_neg hhears, if_neg hhears, if_neg hhears]
      by_cases hpings : e.pings peer
      · rw [if_pos hpings]
        by_cases hroom : e.room = room
        · rw [if_pos ⟨hpings, hroom⟩, if_neg fun h => hne (hroom.symm.trans h.2)]
          omega
        · rw [if_neg fun h => hroom h.2]
          split <;> omega
      · rw [if_neg fun h => hpings h.1, if_neg fun h => hpings h.1, if_neg hpings]
        exact ih

theorem ownRounds_le (peer : NodeId) (room : ρ) (past : List (LivenessEvent ρ)) :
    ownRounds room peer past ≤ rounds peer past := by
  induction past with
  | nil => exact Nat.le_refl 0
  | cons e past ih =>
    rw [ownRounds, rounds]
    by_cases hhears : e.hears peer
    · rw [if_pos hhears, if_pos hhears]
    · rw [if_neg hhears, if_neg hhears]
      by_cases hpings : e.pings peer
      · rw [if_pos hpings]
        split <;> omega
      · rw [if_neg fun h => hpings h.1, if_neg hpings]
        exact ih

/-- Which room suspects a peer, and that its stream tells so: it is the only
one with a suspect that is not cleared. -/
def StreamsTell (timeoutCount : Nat) (peer : NodeId) (past : List (LivenessEvent ρ)) : Prop :=
  ∀ room, Alternates peer (stream w timeoutCount room peer past) ∧
    ((stream w timeoutCount room peer past).length % 2 = 1 ↔
      suspector timeoutCount peer past = some room)

/-- The room that suspects a peer has pinged it for more rounds than the
count, and the count is not at its largest value for long. -/
def SuspectorRounds (timeoutCount : Nat) (peer : NodeId) (past : List (LivenessEvent ρ)) : Prop :=
  (∀ room, suspector timeoutCount peer past = some room →
    timeoutCount < ownRounds room peer past) ∧
  (timeoutCount = U32_MAX → rounds peer past ≤ timeoutCount + 1)

/-- An event apart keeps the rounds of who suspects. -/
theorem suspectorRounds_step {past : List (LivenessEvent ρ)}
    (hkeeps : KeepsApart timeoutCount peer e past) (h : SuspectorRounds timeoutCount peer past) :
    SuspectorRounds timeoutCount peer (e :: past) := by
  obtain ⟨hown, hmost⟩ := h
  constructor
  · intro room hroom
    rw [suspector] at hroom
    rw [ownRounds]
    by_cases hhears : e.hears peer
    · rw [if_pos hhears] at hroom
      cases hroom
    · rw [if_neg hhears] at hroom ⊢
      by_cases hreached : e.pings peer ∧ rounds peer past = timeoutCount
      · rw [if_pos hreached, Option.some.injEq] at hroom
        rw [if_pos ⟨hreached.1, hroom⟩, ← hroom, hkeeps.own hreached.1 hreached.2]
        exact Nat.lt_succ_self _
      · rw [if_neg hreached] at hroom
        have hmore := hown room hroom
        split <;> omega
  · intro heq
    rw [rounds]
    by_cases hhears : e.hears peer
    · rw [if_pos hhears]
      exact Nat.zero_le _
    · rw [if_neg hhears]
      by_cases hpings : e.pings peer
      · have := mt (hkeeps.counted hpings) (by omega)
        rw [if_pos hpings]
        omega
      · rw [if_neg hpings]
        exact hmost heq

theorem rounds_eq_of_min {past : List (LivenessEvent ρ)} (hmax : timeoutCount ≤ U32_MAX)
    (hkeeps : KeepsApart timeoutCount peer e past) (hpings : e.pings peer) :
    min (rounds peer past) U32_MAX = timeoutCount ↔ rounds peer past = timeoutCount := by
  have := hkeeps.counted hpings
  omega

/-- An event apart leaves one room that suspects, and its stream tells. -/
theorem streamsTell_step (hpos : 0 < timeoutCount) (hmax : timeoutCount ≤ U32_MAX)
    {past : List (LivenessEvent ρ)} (hkeeps : KeepsApart timeoutCount peer e past)
    (h : StreamsTell w timeoutCount peer past) :
    StreamsTell w timeoutCount peer (e :: past) := by
  intro room
  obtain ⟨halternates, hodd⟩ := h room
  rw [stream, filter_emitted w hpos hmax, suspector]
  by_cases hhears : e.hears peer
  · simp only [if_pos hhears]
    by_cases hsilent : timeoutCount < rounds peer past
    · obtain ⟨suspecting, hsuspector⟩ :=
        Option.isSome_iff_exists.mp ((suspector_isSome past).mpr hsilent)
      obtain rfl := hkeeps.heard hhears suspecting hsuspector
      rw [if_pos hsilent]
      by_cases hroom : e.room = room
      · rw [if_pos hroom, alternates_concat, List.length_append, List.length_singleton]
        have hlength := hodd.mpr (hroom ▸ hsuspector)
        refine ⟨⟨halternates, (if_neg (by omega)).symm⟩, ?_⟩
        exact iff_of_false (by omega) (Option.some_ne_none room).symm
      · rw [if_neg hroom, List.append_nil]
        refine ⟨halternates, iff_of_false (fun hlength => hroom ?_) (Option.some_ne_none room).symm⟩
        exact Option.some.inj (hsuspector.symm.trans (hodd.mp hlength))
    · have hnone : suspector timeoutCount peer past = none :=
        Option.not_isSome_iff_eq_none.mp (mt (suspector_isSome past).mp hsilent)
      rw [if_neg hsilent, ite_self, List.append_nil]
      exact ⟨halternates, hnone ▸ hodd⟩
  · simp only [if_neg hhears]
    by_cases hreached : e.pings peer ∧ rounds peer past = timeoutCount
    · have hnone : suspector timeoutCount peer past = none :=
        Option.not_isSome_iff_eq_none.mp (mt (suspector_isSome past).mp (by omega))
      have hraises : e.pings peer ∧ min (rounds peer past) U32_MAX = timeoutCount :=
        ⟨hreached.1, (rounds_eq_of_min hmax hkeeps hreached.1).mpr hreached.2⟩
      have heven : ¬ (stream w timeoutCount room peer past).length % 2 = 1 := fun hlength =>
        Option.some_ne_none room ((hodd.mp hlength).symm.trans hnone)
      rw [if_pos hraises, if_pos hreached]
      by_cases hroom : e.room = room
      · rw [if_pos hroom, alternates_concat, List.length_append, List.length_singleton]
        refine ⟨⟨halternates, (if_pos (by omega)).symm⟩, ?_⟩
        exact iff_of_true (by omega) (congrArg some hroom)
      · rw [if_neg hroom, List.append_nil]
        exact ⟨halternates, iff_of_false heven fun h => hroom (Option.some.inj h)⟩
    · have hnot : ¬ (e.pings peer ∧ min (rounds peer past) U32_MAX = timeoutCount) := fun h =>
        hreached ⟨h.1, (rounds_eq_of_min hmax hkeeps h.1).mp h.2⟩
      rw [if_neg hnot, if_neg hreached, ite_self, List.append_nil]
      exact ⟨halternates, hodd⟩

/-- While rooms keep apart, one at most suspects a peer, and its stream tells. -/
theorem invariants_of_keepsApart (hpos : 0 < timeoutCount) (hmax : timeoutCount ≤ U32_MAX)
    (run : List (LivenessEvent ρ))
    (hkeeps : ∀ e past, e :: past <:+ run → KeepsApart timeoutCount peer e past) :
    StreamsTell w timeoutCount peer run ∧ SuspectorRounds timeoutCount peer run := by
  induction run with
  | nil =>
    refine ⟨fun room => ⟨fun i action hi => ?_, iff_of_false ?_ (Option.some_ne_none room).symm⟩,
      fun room hroom => ?_, fun _ => Nat.zero_le _⟩
    · cases hi
    · exact Nat.zero_ne_one
    · cases hroom
  | cons e past ih =>
    have hstep := hkeeps e past (List.suffix_refl _)
    obtain ⟨htell, hrounds⟩ := ih fun e' past' h => hkeeps e' past' (h.trans (List.suffix_cons _ _))
    exact ⟨streamsTell_step w hpos hmax hstep htell, suspectorRounds_step hstep hrounds⟩

theorem Alternates.odd_of_getLast {actions : List OverlayAction} (h : Alternates peer actions)
    (hlast : actions.getLast? = some (.suspectDisconnected peer)) : actions.length % 2 = 1 := by
  obtain ⟨front, rfl⟩ := List.getLast?_eq_some_iff.mp hlast
  have haction := (alternates_concat.mp h).2
  rw [List.length_append, List.length_singleton]
  split at haction
  · omega
  · cases haction

theorem suspectsInTurn_of_keepsApart (hpos : 0 < timeoutCount) (hmax : timeoutCount ≤ U32_MAX)
    {run : List (LivenessEvent ρ)}
    (hkeeps : ∀ e past, e :: past <:+ run → KeepsApart timeoutCount peer e past) :
    SuspectsInTurn w timeoutCount peer run where
  alternate room := ((invariants_of_keepsApart w hpos hmax run hkeeps).1 room).1
  silent e past hsuffix hmem := by
    have hstep := hkeeps e past hsuffix
    obtain ⟨hpings, hcounted⟩ := (suspect_mem_emitted w hpos hmax).mp hmem
    have hreached := (rounds_eq_of_min hmax hstep hpings).mp hcounted
    exact Nat.le_of_eq (hstep.own hpings hreached).symm
  cleared e past hsuffix hhears hlast := by
    have hpast := invariants_of_keepsApart w hpos hmax past fun e' past' h =>
      hkeeps e' past' ((h.trans (List.suffix_cons _ _)).trans hsuffix)
    obtain ⟨halternates, hodd⟩ := hpast.1 e.room
    have hsuspector := hodd.mp (halternates.odd_of_getLast hlast)
    refine clear_mem_emitted w hpos hmax hhears ((suspector_isSome past).mp ?_)
    rw [hsuspector]
    rfl

theorem SuspectsInTurn.past {past : List (LivenessEvent ρ)}
    (h : SuspectsInTurn w timeoutCount peer (e :: past)) :
    SuspectsInTurn w timeoutCount peer past where
  alternate room i action hi := by
    refine h.alternate room i action ?_
    obtain ⟨hlt, -⟩ := List.getElem?_eq_some_iff.mp hi
    rw [stream, List.getElem?_append_left hlt, hi]
  silent e' past' hsuffix := h.silent e' past' (hsuffix.trans (List.suffix_cons _ _))
  cleared e' past' hsuffix := h.cleared e' past' (hsuffix.trans (List.suffix_cons _ _))

/-- Who suspects in turn has kept apart. -/
theorem SuspectsInTurn.keepsApart (hpos : 0 < timeoutCount) (hmax : timeoutCount ≤ U32_MAX)
    {past : List (LivenessEvent ρ)} (h : SuspectsInTurn w timeoutCount peer (e :: past))
    (htell : StreamsTell w timeoutCount peer past) (hrounds : SuspectorRounds timeoutCount peer past) :
    KeepsApart timeoutCount peer e past where
  own hpings hreached := by
    have hcounted : min (rounds peer past) U32_MAX = timeoutCount := by omega
    have hmem := (suspect_mem_emitted w hpos hmax).mpr ⟨hpings, hcounted⟩
    have := h.silent e past (List.suffix_refl _) hmem
    have := ownRounds_le peer e.room past
    omega
  counted hpings hmore := by
    by_contra hlarge
    have hcounted : min (rounds peer past) U32_MAX = timeoutCount := by omega
    have hmem := (suspect_mem_emitted w hpos hmax).mpr ⟨hpings, hcounted⟩
    have hsilent := h.silent e past (List.suffix_refl _) hmem
    obtain ⟨room, hsuspector⟩ := Option.isSome_iff_exists.mp ((suspector_isSome past).mpr hmore)
    obtain ⟨hown, hmost⟩ := hrounds
    have hlonger := hown room hsuspector
    have hatMost := hmost (by omega)
    by_cases hroom : e.room = room
    · -- the room that suspects the peer suspects it once more
      have hlast := h.alternate room
      rw [stream, filter_emitted w hpos hmax, if_pos hroom,
        if_neg (e.not_hears_of_pings hpings), if_pos (And.intro hpings hcounted),
        alternates_concat,
        if_neg (by have := (htell room).2.mpr hsuspector; omega)] at hlast
      cases hlast.2
    · -- another room has had no round at all
      have := ownRounds_add_le peer hroom past
      omega
  heard hhears room hsuspector := by
    by_contra hroom
    have hmore : timeoutCount < rounds peer past :=
      (suspector_isSome past).mp (hsuspector ▸ rfl)
    have heven : ¬ (stream w timeoutCount e.room peer past).length % 2 = 1 := fun hodd =>
      hroom (Option.some.inj (hsuspector.symm.trans ((htell e.room).2.mp hodd)))
    -- the room that hears the peer clears what it does not suspect
    have hlast := h.alternate e.room
    rw [stream, filter_emitted w hpos hmax, if_pos rfl, if_pos hhears, if_pos hmore,
      alternates_concat, if_pos (by omega)] at hlast
    cases hlast.2

/-- For rooms that share the statistics of their peers: suspect and clear come
out right in every room exactly when every event of the run keeps the rooms
apart. -/
theorem suspect_alternates (hpos : 0 < timeoutCount) (hmax : timeoutCount ≤ U32_MAX)
    (run : List (LivenessEvent ρ)) :
    SuspectsInTurn w timeoutCount peer run ↔
      ∀ e past, e :: past <:+ run → KeepsApart timeoutCount peer e past := by
  refine ⟨fun h => ?_, suspectsInTurn_of_keepsApart w hpos hmax⟩
  induction run with
  | nil =>
    intro e past hsuffix
    cases List.suffix_nil.mp hsuffix
  | cons e past ih =>
    have hpast := ih h.past
    obtain ⟨htell, hrounds⟩ := invariants_of_keepsApart w hpos hmax past hpast
    intro e' past' hsuffix
    rcases List.suffix_cons_iff.mp hsuffix with heq | hsuffix
    · cases heq
      exact h.keepsApart w hpos hmax htell hrounds
    · exact hpast e' past' hsuffix

/-- The events of a single room keep apart. -/
theorem keepsApart_of_oneRoom (hmax : timeoutCount < U32_MAX) (room : ρ)
    {run : List (LivenessEvent ρ)} (hroom : ∀ e ∈ run, e.room = room) :
    ∀ e past, e :: past <:+ run → KeepsApart timeoutCount peer e past := by
  intro e past hsuffix
  have hpast : ∀ e' ∈ past, e'.room = room := fun e' hmem =>
    hroom e' (hsuffix.subset (List.mem_cons_of_mem e hmem))
  have he : e.room = room := hroom e (hsuffix.subset List.mem_cons_self)
  clear hsuffix hroom
  refine ⟨fun _ hreached => ?_, fun _ _ => hmax, fun _ suspecting hsuspector => ?_⟩
  · rw [← hreached, he]
    clear hreached
    induction past with
    | nil => rfl
    | cons e' past ih =>
      rw [ownRounds, rounds, ih fun e'' hmem => hpast e'' (List.mem_cons_of_mem e' hmem),
        hpast e' List.mem_cons_self]
      simp only [and_true]
  · rw [he]
    induction past with
    | nil => cases hsuspector
    | cons e' past ih =>
      rw [suspector] at hsuspector
      split at hsuspector
      · cases hsuspector
      · split at hsuspector
        · rw [← hpast e' List.mem_cons_self]
          exact (Option.some.inj hsuspector).symm
        · exact ih (fun e'' hmem => hpast e'' (List.mem_cons_of_mem e' hmem)) hsuspector

end Peer

/-! ## Two rooms and one peer -/

namespace Shared

def self : NodeId := ⟨"self"⟩
def peer : NodeId := ⟨"peer"⟩

/-- The tick of a room at a time, with the peer connected. -/
def tickAt (now : Nat) : PingTick where
  localNodeId := self
  hopCount := 3
  connected := [peer]
  nodup := List.nodup_singleton peer
  now := now
  msgId _ := now

/-- The wire of the pings of the first four ticks. -/
def wire : Wire :=
  .ofFrames ([1, 2, 3, 4].map fun now =>
    (OverlayEnvelope.new self peer now 3
      (.overlay { messageType := OVERLAY_MSG_PING, payload := toLeBytes now }), toLeBytes now))
    (by decide)

def silence (room : String) : List (LivenessEvent String) :=
  [4, 3, 2, 1].map fun now => .tick room (tickAt now)

/-- The peer is heard again where it was silent. -/
theorem heardAgain :
    (0 < 3 ∧ 3 ≤ U32_MAX) ∧
      SuspectsInTurn wire 3 peer (.frame "a" peer :: silence "a") :=
  ⟨by decide, (suspect_alternates wire (by decide) (by decide) _).mpr
    (keepsApart_of_oneRoom (by decide) "a" (by decide))⟩

/-- The peer is heard in a room that never suspected it: that room clears a
suspicion it does not have. -/
theorem heardElsewhere :
    ¬ SuspectsInTurn wire 3 peer (.frame "b" peer :: silence "a") := by
  intro h
  have hcleared : (stream wire 3 "b" peer (.frame "b" peer :: silence "a"))[0]? =
      some (.clearSuspect peer) := by decide
  exact absurd (h.alternate "b" 0 _ hcleared) (by decide)

end Shared

end Mistlib.Overlay
