import Mistlib.Overlay.ConnectionSelection

/-!
# The connection balancer

What the balancer makes of a selection: it prunes connections while there are too many, and then
connects to what is selected, each time giving up the worst connection that is not selected once
the limit is reached. So selected nodes alone can go over the limit.

Both phases edit one list of connections. `Moves` says what a part of them did to it, and parts
compose (`Moves.trans`).
-/

namespace Mistlib.Overlay

open Comparing (sortBy)

def F32_MIN : Float32 := -3.40282347e+38

def OverlayAction.dest : OverlayAction → NodeId
  | .sendMessage dest _ _ _ | .connect dest | .disconnect dest | .suspectDisconnected dest
  | .clearSuspect dest | .sendSignaling dest _ => dest

structure BalancerActionContext where
  selectedIds : List NodeId
  selfPos : Position
  nodePositions : Table NodeId Position
  connectedMap : Table NodeId ConnectionState
  config : Config Float32
  selfId : NodeId
  target : Nat

namespace BalancerActionContext

variable (ctx : BalancerActionContext)

def max : Nat := ctx.config.limits.maxConnectionCount.toNat

def active (id : NodeId) : Bool :=
  match ctx.connectedMap.get id with
  | some .connecting | some .connected => true
  | _ => false

end BalancerActionContext

namespace DNVE3ConnectionBalancer

section Actions

variable (ctx : BalancerActionContext)

def disconnectScore (selfPos nodePos : Position) : Float32 := -(nodePos - selfPos).magnitude

def scoreNodes (nodes : List NodeId) : List (NodeId × Float32) :=
  (nodes.filter (· ∉ ctx.selectedIds)).map fun id =>
    (id, (ctx.nodePositions.get id).elim F32_MIN (disconnectScore ctx.selfPos))

def sortScores (scores : List (NodeId × Float32)) : List (NodeId × Float32) :=
  sortBy (fun a b => (totalCmp a.2 b.2).then (a.1.cmp b.1)) scores

/-- The loop of the pruning, over the scores that are left. -/
def dropScored (numToDrop : Nat) : List (NodeId × Float32) → Nat → List NodeId →
    List OverlayAction × List NodeId
  | [], _, connected => ([], connected)
  | (id, _) :: scores, dropped, connected =>
    if dropped ≥ numToDrop then ([], connected)
    else if id = ctx.selfId then dropScored numToDrop scores dropped connected
    else if ctx.active id then
      let (actions, connected) := dropScored numToDrop scores (dropped + 1) (connected.filter (· ≠ id))
      (.disconnect id :: actions, connected)
    else dropScored numToDrop scores dropped connected

/-- A `usize` has 64 bits, so the number to drop does not overflow. -/
def pruneExcessConnections (connected : List NodeId) : List OverlayAction × List NodeId :=
  if connected.length ≤ ctx.target then ([], connected)
  else
    let numToDrop := (connected.length - ctx.target) + ctx.config.limits.forceDisconnectCount.toNat
    dropScored ctx numToDrop (sortScores (scoreNodes ctx connected)) 0 connected

/-- At the limit the worst connection is swapped for a better one, if there is one
that is not selected. -/
def makeRoom (connected : List NodeId) : List OverlayAction × List NodeId :=
  if connected.length ≥ ctx.max then
    match sortScores (scoreNodes ctx connected) with
    | worst :: _ => ([.disconnect worst.1], connected.filter (· ≠ worst.1))
    | [] => ([], connected)
  else ([], connected)

def connectSelectedNodes : List NodeId → List NodeId → List OverlayAction × List NodeId
  | [], connected => ([], connected)
  | id :: selectedNodes, connected =>
    if id = ctx.selfId ∨ ctx.active id then connectSelectedNodes selectedNodes connected
    else
      let (room, connected) := makeRoom ctx connected
      let (actions, connected) := connectSelectedNodes selectedNodes (connected ++ [id])
      (room ++ .connect id :: actions, connected)

end Actions

def connectedIds (states : List (NodeId × ConnectionState)) : List NodeId :=
  (states.filter fun e => e.2 = .connected).map (·.1)

section Selection

variable (b : DNVE3ConnectionBalancer) (config : Config Float32) (selfPos : Position)
  (allNodes : List (NodeId × Position)) (connectedNodeStates : List (NodeId × ConnectionState)) (selfId : NodeId)
  (densityGuidance : Option DensityGuidance)

def target : Nat := config.limits.maxConnectionCount.toNat - config.limits.reservedConnectionCount.toNat

def actionContext : BalancerActionContext where
  selectedIds := b.selectedNodes config selfPos allNodes densityGuidance (target config)
  selfPos
  nodePositions := .collect allNodes
  connectedMap := .collect connectedNodeStates
  config
  selfId
  target := target config

def selectConnectionsWithDensityGuidance : List OverlayAction :=
  let selectedNodes := b.selectedNodes config selfPos allNodes densityGuidance (target config)
  let ctx := b.actionContext config selfPos allNodes connectedNodeStates selfId densityGuidance
  let (pruned, connected) := pruneExcessConnections ctx (connectedIds connectedNodeStates)
  pruned ++ (connectSelectedNodes ctx selectedNodes connected).1

end Selection

end DNVE3ConnectionBalancer

/-! ## What a part of the balancing does -/

/-- Connections that are not selected are dropped, selected nodes are added, each
with its action. -/
structure Moves (ctx : BalancerActionContext) (before : List NodeId) (actions : List OverlayAction)
    (after dropped added : List NodeId) : Prop where
  perm : actions.Perm (dropped.map .disconnect ++ added.map .connect)
  nodup : dropped.Nodup
  unselected : ∀ id ∈ dropped, id ∈ before ∧ id ∉ ctx.selectedIds
  selected : ∀ id ∈ added, id ∈ ctx.selectedIds
  left : after = before.filter (· ∉ dropped) ++ added

namespace Moves

variable {ctx : BalancerActionContext} {before mid after : List NodeId} {actions actions' : List OverlayAction}
  {dropped dropped' added added' : List NodeId}

theorem none (before : List NodeId) : Moves ctx before [] before [] [] where
  perm := .refl _
  nodup := List.nodup_nil
  unselected := List.forall_mem_nil _
  selected := List.forall_mem_nil _
  left := by simp

theorem trans (h : Moves ctx before actions mid dropped added)
    (h' : Moves ctx mid actions' after dropped' added') :
    Moves ctx before (actions ++ actions') after (dropped ++ dropped') (added ++ added') where
  perm := by
    rw [List.map_append, List.map_append]
    refine (h.perm.append h'.perm).trans ?_
    rw [List.append_assoc, List.append_assoc]
    refine List.Perm.append_left _ ?_
    rw [← List.append_assoc, ← List.append_assoc]
    exact List.perm_append_comm.append_right _
  nodup := by
    refine List.nodup_append.mpr ⟨h.nodup, h'.nodup, ?_⟩
    rintro id hid _ hid' rfl
    obtain ⟨hmid, hout⟩ := h'.unselected id hid'
    rw [h.left] at hmid
    rcases List.mem_append.mp hmid with hkept | hadded
    · simp [hid] at hkept
    · exact hout (h.selected id hadded)
  unselected := by
    intro id hid
    rcases List.mem_append.mp hid with hid | hid
    · exact h.unselected id hid
    · obtain ⟨hmid, hout⟩ := h'.unselected id hid
      refine ⟨?_, hout⟩
      rw [h.left] at hmid
      rcases List.mem_append.mp hmid with hkept | hadded
      · exact (List.mem_filter.mp hkept).1
      · exact absurd (h.selected id hadded) hout
  selected := List.forall_mem_append.mpr ⟨h.selected, h'.selected⟩
  left := by
    have hstay : added.filter (· ∉ dropped') = added := List.filter_eq_self.mpr fun id hid =>
      decide_eq_true fun hdropped => (h'.unselected id hdropped).2 (h.selected id hid)
    rw [h'.left, h.left, List.filter_append, hstay, List.filter_filter, List.append_assoc]
    congr 1
    refine List.filter_congr fun id _ => ?_
    simp [Bool.and_comm]

end Moves

namespace DNVE3ConnectionBalancer

section Phases

variable {ctx : BalancerActionContext} {connected : List NodeId}

theorem map_sortScores_perm (ctx : BalancerActionContext) (connected : List NodeId) :
    ((sortScores (scoreNodes ctx connected)).map (·.1)).Perm (connected.filter (· ∉ ctx.selectedIds)) := by
  have hids : (scoreNodes ctx connected).map (·.1) = connected.filter (· ∉ ctx.selectedIds) := by
    unfold scoreNodes
    rw [List.map_map]
    exact List.map_id _
  rw [← hids]
  exact (Comparing.sortBy_perm _ _).map _

theorem mem_sortScores {x : NodeId × Float32} (h : x ∈ sortScores (scoreNodes ctx connected)) :
    x.1 ∈ connected ∧ x.1 ∉ ctx.selectedIds := by
  have hmem := (map_sortScores_perm ctx connected).mem_iff.mp (List.mem_map.mpr ⟨x, h, rfl⟩)
  obtain ⟨hconnected, hout⟩ := List.mem_filter.mp hmem
  exact ⟨hconnected, of_decide_eq_true hout⟩

theorem dropScored_eq {scores : List (NodeId × Float32)} {numToDrop : Nat}
    (hall : ∀ x ∈ scores, x.1 ≠ ctx.selfId ∧ ctx.active x.1 = true) (dropped : Nat) (connected : List NodeId) :
    dropScored ctx numToDrop scores dropped connected =
      (((scores.take (numToDrop - dropped)).map (·.1)).map .disconnect,
        connected.filter (· ∉ (scores.take (numToDrop - dropped)).map (·.1))) := by
  induction scores generalizing dropped connected with
  | nil => simp [dropScored]
  | cons x scores ih =>
    obtain ⟨⟨hself, hactive⟩, hrest⟩ := List.forall_mem_cons.mp hall
    unfold dropScored
    by_cases hdone : dropped ≥ numToDrop
    · rw [if_pos hdone, Nat.sub_eq_zero_of_le hdone]
      simp
    · have hleft : numToDrop - dropped = numToDrop - (dropped + 1) + 1 := by omega
      rw [if_neg hdone, if_neg hself, if_pos hactive, ih hrest, hleft, List.take_succ_cons]
      simp only [List.map_cons, List.filter_filter, Prod.mk.injEq, true_and]
      refine List.filter_congr fun id _ => ?_
      simp [Bool.and_comm]

theorem pruneExcessConnections_moves (hnodup : connected.Nodup)
    (hactive : ∀ id ∈ connected, id ≠ ctx.selfId ∧ ctx.active id = true) :
    ∃ dropped, Moves ctx connected (pruneExcessConnections ctx connected).1
        (pruneExcessConnections ctx connected).2 dropped [] ∧
      (pruneExcessConnections ctx connected).1 = dropped.map .disconnect ∧
      dropped.length = if connected.length ≤ ctx.target then 0
        else min (connected.length - ctx.target + ctx.config.limits.forceDisconnectCount.toNat)
          (connected.filter (· ∉ ctx.selectedIds)).length := by
  unfold pruneExcessConnections
  split
  · exact ⟨[], .none _, rfl, rfl⟩
  · have hall : ∀ x ∈ sortScores (scoreNodes ctx connected), x.1 ≠ ctx.selfId ∧ ctx.active x.1 = true :=
      fun x hx => hactive x.1 (mem_sortScores hx).1
    have hperm := map_sortScores_perm ctx connected
    simp only
    rw [dropScored_eq hall, Nat.sub_zero, List.map_take]
    refine ⟨((sortScores (scoreNodes ctx connected)).map (·.1)).take
      (connected.length - ctx.target + ctx.config.limits.forceDisconnectCount.toNat),
      ⟨?_, ?_, ?_, List.forall_mem_nil _, ?_⟩, rfl, ?_⟩
    · rw [List.map_nil, List.append_nil]
    · exact (hperm.nodup_iff.mpr (hnodup.filter _)).sublist (List.take_sublist _ _)
    · intro id hid
      obtain ⟨x, hx, rfl⟩ := List.mem_map.mp (List.mem_of_mem_take hid)
      exact mem_sortScores hx
    · rw [List.append_nil]
    · rw [List.length_take, hperm.length_eq]

theorem makeRoom_moves (ctx : BalancerActionContext) (connected : List NodeId) :
    ∃ dropped, Moves ctx connected (makeRoom ctx connected).1 (makeRoom ctx connected).2 dropped [] := by
  unfold makeRoom
  split
  · split
    · next worst _ hworst =>
      have hmem : worst ∈ sortScores (scoreNodes ctx connected) := by
        rw [hworst]
        exact List.mem_cons_self
      refine ⟨[worst.1], .refl _, List.nodup_singleton _, ?_, List.forall_mem_nil _, ?_⟩
      · exact List.forall_mem_singleton.mpr (mem_sortScores hmem)
      · simp
    · exact ⟨[], .none _⟩
  · exact ⟨[], .none _⟩

def needed (ctx : BalancerActionContext) (selectedNodes : List NodeId) : List NodeId :=
  selectedNodes.filter fun id => !(decide (id = ctx.selfId) || ctx.active id)

theorem connectSelectedNodes_moves {selectedNodes : List NodeId}
    (hselected : ∀ id ∈ selectedNodes, id ∈ ctx.selectedIds) (connected : List NodeId) :
    ∃ dropped, Moves ctx connected (connectSelectedNodes ctx selectedNodes connected).1
      (connectSelectedNodes ctx selectedNodes connected).2 dropped (needed ctx selectedNodes) := by
  induction selectedNodes generalizing connected with
  | nil => exact ⟨[], .none _⟩
  | cons id rest ih =>
    obtain ⟨hid, hrest⟩ := List.forall_mem_cons.mp hselected
    unfold connectSelectedNodes needed
    by_cases hskip : id = ctx.selfId ∨ ctx.active id = true
    · rw [if_pos hskip, List.filter_cons_of_neg (by rcases hskip with h | h <;> simp [h])]
      exact ih hrest connected
    · rw [if_neg hskip, List.filter_cons_of_pos (by simpa using hskip)]
      obtain ⟨room, hroom⟩ := makeRoom_moves ctx connected
      obtain ⟨dropped, hmoves⟩ := ih hrest ((makeRoom ctx connected).2 ++ [id])
      have hconnect : Moves ctx (makeRoom ctx connected).2 [.connect id] ((makeRoom ctx connected).2 ++ [id]) [] [id] :=
        ⟨.refl _, List.nodup_nil, List.forall_mem_nil _, List.forall_mem_singleton.mpr hid, by simp⟩
      have hall := (hroom.trans hconnect).trans hmoves
      rw [List.append_nil, List.nil_append, List.append_assoc] at hall
      exact ⟨room ++ dropped, hall⟩

/-! ## The limit -/

/-- The connections are within the limit, or they are all selected. -/
def Fits (ctx : BalancerActionContext) (connected : List NodeId) : Prop :=
  connected.length ≤ ctx.max ∨ ∀ id ∈ connected, id ∈ ctx.selectedIds

theorem fits_makeRoom (hfits : Fits ctx connected) {id : NodeId} (hid : id ∈ ctx.selectedIds) :
    Fits ctx ((makeRoom ctx connected).2 ++ [id]) := by
  have hadd : ∀ ids : List NodeId, (∀ id ∈ ids, id ∈ ctx.selectedIds) → Fits ctx (ids ++ [id]) := fun ids hids =>
    .inr (List.forall_mem_append.mpr ⟨hids, List.forall_mem_singleton.mpr hid⟩)
  unfold makeRoom
  split
  · next hfull =>
    split
    · next worst _ hworst =>
      have hmem : worst ∈ sortScores (scoreNodes ctx connected) := by
        rw [hworst]
        exact List.mem_cons_self
      obtain ⟨hin, hout⟩ := mem_sortScores hmem
      have hlimit : connected.length ≤ ctx.max := hfits.resolve_right fun hall => hout (hall _ hin)
      have hless : (connected.filter (· ≠ worst.1)).length < connected.length :=
        List.length_filter_lt_length_iff_exists.mpr ⟨worst.1, hin, by simp⟩
      refine .inl ?_
      show (connected.filter (· ≠ worst.1) ++ [id]).length ≤ ctx.max
      rw [List.length_append, List.length_singleton]
      omega
    · next hnone =>
      refine hadd connected fun id' hin => ?_
      have hempty := map_sortScores_perm ctx connected
      rw [hnone, List.map_nil] at hempty
      by_contra hout
      exact List.not_mem_nil (hempty.mem_iff.mpr (List.mem_filter.mpr ⟨hin, decide_eq_true hout⟩))
  · next hroom =>
    refine .inl ?_
    show (connected ++ [id]).length ≤ ctx.max
    rw [List.length_append, List.length_singleton]
    omega

theorem fits_connectSelectedNodes {selectedNodes : List NodeId}
    (hselected : ∀ id ∈ selectedNodes, id ∈ ctx.selectedIds) (hfits : Fits ctx connected) :
    Fits ctx (connectSelectedNodes ctx selectedNodes connected).2 := by
  induction selectedNodes generalizing connected with
  | nil => exact hfits
  | cons id rest ih =>
    obtain ⟨hid, hrest⟩ := List.forall_mem_cons.mp hselected
    unfold connectSelectedNodes
    split
    · exact ih hrest hfits
    · exact ih hrest (fits_makeRoom hfits hid)

theorem fits_pruned {after dropped : List NodeId} {actions : List OverlayAction}
    (hmoves : Moves ctx connected actions after dropped []) (htarget : ctx.target ≤ ctx.max)
    (hlength : dropped.length = if connected.length ≤ ctx.target then 0
        else min (connected.length - ctx.target + ctx.config.limits.forceDisconnectCount.toNat)
          (connected.filter (· ∉ ctx.selectedIds)).length) : Fits ctx after := by
  have hafter : after = connected.filter (· ∉ dropped) := by
    rw [hmoves.left, List.append_nil]
  split at hlength
  · next hfew =>
    cases List.length_eq_zero_iff.mp hlength
    refine .inl (Nat.le_trans ?_ htarget)
    rw [hafter]
    exact Nat.le_trans (List.length_filter_le _ _) hfew
  · have hsub : dropped.Subperm (connected.filter (· ∉ ctx.selectedIds)) :=
      hmoves.nodup.subperm fun id hid => by
        obtain ⟨hin, hout⟩ := hmoves.unselected id hid
        exact List.mem_filter.mpr ⟨hin, decide_eq_true hout⟩
    rcases Nat.le_total (connected.length - ctx.target + ctx.config.limits.forceDisconnectCount.toNat)
      (connected.filter (· ∉ ctx.selectedIds)).length with hsome | hall
    · rw [Nat.min_eq_left hsome] at hlength
      have hinside : dropped.Subperm (connected.filter fun id => !decide (id ∉ dropped)) :=
        hmoves.nodup.subperm fun id hid => List.mem_filter.mpr ⟨(hmoves.unselected id hid).1, by simp [hid]⟩
      have hsplit := List.length_eq_length_filter_add (l := connected) (f := fun id => decide (id ∉ dropped))
      have hle := hinside.length_le
      refine .inl (Nat.le_trans ?_ htarget)
      rw [hafter]
      omega
    · rw [Nat.min_eq_right hall] at hlength
      have hperm := hsub.perm_of_length_le (Nat.le_of_eq hlength.symm)
      refine .inr fun id hid => ?_
      rw [hafter] at hid
      obtain ⟨hin, hkept⟩ := List.mem_filter.mp hid
      by_contra hout
      exact of_decide_eq_true hkept (hperm.mem_iff.mpr (List.mem_filter.mpr ⟨hin, decide_eq_true hout⟩))

end Phases

end DNVE3ConnectionBalancer

/-! ## The actions of a balancing -/

def OverlayAction.connects : OverlayAction → Option NodeId
  | .connect id => some id
  | _ => none

/-- The connected nodes that the actions leave, and those they connect to. -/
def connectionsAfter (connected : List NodeId) (actions : List OverlayAction) : List NodeId :=
  connected.filter (.disconnect · ∉ actions) ++ actions.filterMap OverlayAction.connects

open DNVE3ConnectionBalancer in
/-- What a balancing owes: its actions do not contradict each other, it prunes as
much as is too much, and it goes over the limit for selected nodes only. -/
structure Consistent (ctx : BalancerActionContext) (states : List (NodeId × ConnectionState))
    (actions : List OverlayAction) : Prop where
  once : (actions.map OverlayAction.dest).Nodup
  notSelf : ctx.selfId ∉ actions.map OverlayAction.dest
  kinds : ∀ action ∈ actions, (∃ id, action = .connect id) ∨ ∃ id, action = .disconnect id
  connects : ∀ id, .connect id ∈ actions →
    id ∈ ctx.selectedIds ∧ (id, .connected) ∉ states ∧ (id, .connecting) ∉ states
  disconnects : ∀ id, .disconnect id ∈ actions → (id, .connected) ∈ states ∧ id ∉ ctx.selectedIds
  pruned : ∃ dropped : List NodeId,
    (pruneExcessConnections ctx (connectedIds states)).1 = dropped.map .disconnect ∧
      dropped.map .disconnect <+: actions ∧
      (ctx.target < (connectedIds states).length → dropped.length =
        min ((connectedIds states).length - ctx.target + ctx.config.limits.forceDisconnectCount.toNat)
          ((connectedIds states).filter (· ∉ ctx.selectedIds)).length)
  within : (connectionsAfter (connectedIds states) actions).length ≤ ctx.max ∨
    ∀ id ∈ connectionsAfter (connectedIds states) actions, id ∈ ctx.selectedIds

namespace Moves

variable {ctx : BalancerActionContext} {before after dropped added : List NodeId} {actions : List OverlayAction}

section

variable (h : Moves ctx before actions after dropped added)
include h

theorem disconnect_mem {id : NodeId} : .disconnect id ∈ actions ↔ id ∈ dropped := by
  rw [h.perm.mem_iff]
  simp

theorem connect_mem {id : NodeId} : .connect id ∈ actions ↔ id ∈ added := by
  rw [h.perm.mem_iff]
  simp

theorem dest_perm : (actions.map OverlayAction.dest).Perm (dropped ++ added) := by
  refine (h.perm.map _).trans (List.Perm.of_eq ?_)
  rw [List.map_append, List.map_map, List.map_map]
  exact congrArg₂ _ (List.map_id _) (List.map_id _)

theorem connectionsAfter_perm : (connectionsAfter before actions).Perm after := by
  rw [h.left]
  refine List.Perm.append (List.Perm.of_eq ?_) ?_
  · refine List.filter_congr fun id _ => ?_
    rw [decide_eq_decide, h.disconnect_mem]
  · refine (h.perm.filterMap _).trans (List.Perm.of_eq ?_)
    have hdropped : (dropped.map OverlayAction.disconnect).filterMap OverlayAction.connects = [] :=
      List.filterMap_eq_nil_iff.mpr fun action hmem => by
        obtain ⟨id, _, rfl⟩ := List.mem_map.mp hmem
        rfl
    rw [List.filterMap_append, hdropped, List.nil_append, List.filterMap_map]
    exact List.filterMap_some

end

end Moves

namespace DNVE3ConnectionBalancer

section Consistency

variable {states : List (NodeId × ConnectionState)} {ctx : BalancerActionContext}

theorem mem_connectedIds {id : NodeId} : id ∈ connectedIds states ↔ (id, .connected) ∈ states := by
  simp [connectedIds]

theorem active_iff (hmap : ctx.connectedMap = .collect states) (hstates : (states.map (·.1)).Nodup) {id : NodeId} :
    ctx.active id = true ↔ (id, .connected) ∈ states ∨ (id, .connecting) ∈ states := by
  rw [← Table.get_collect hstates, ← Table.get_collect hstates, ← hmap]
  unfold BalancerActionContext.active
  cases ctx.connectedMap.get id with
  | none => simp
  | some state => cases state <;> simp

/-- To prune and then to connect is consistent. -/
theorem phases_consistent (hmap : ctx.connectedMap = .collect states) (htarget : ctx.target ≤ ctx.max)
    (hselected : ctx.selectedIds.Nodup) (hstates : (states.map (·.1)).Nodup)
    (hself : ctx.selfId ∉ ctx.selectedIds) (hstates' : ctx.selfId ∉ states.map (·.1)) :
    Consistent ctx states ((pruneExcessConnections ctx (connectedIds states)).1 ++
      (connectSelectedNodes ctx ctx.selectedIds (pruneExcessConnections ctx (connectedIds states)).2).1) := by
  have hconnected : (connectedIds states).Nodup := hstates.sublist (List.filter_sublist.map _)
  have hactive : ∀ id ∈ connectedIds states, id ≠ ctx.selfId ∧ ctx.active id = true := by
    intro id hid
    have hmem := mem_connectedIds.mp hid
    refine ⟨?_, (active_iff hmap hstates).mpr (.inl hmem)⟩
    rintro rfl
    exact hstates' (List.mem_map.mpr ⟨_, hmem, rfl⟩)
  obtain ⟨pruned, hprune, hpruned, hlength⟩ := pruneExcessConnections_moves hconnected hactive
  obtain ⟨swapped, hconnect⟩ := connectSelectedNodes_moves (fun id hid => hid)
    (pruneExcessConnections ctx (connectedIds states)).2
  have hmoves := hprune.trans hconnect
  rw [List.nil_append] at hmoves
  have hfits := fits_connectSelectedNodes (fun id hid => hid) (fits_pruned hprune htarget hlength)
  refine ⟨?_, ?_, ?_, ?_, ?_, ?_, ?_⟩
  · refine hmoves.dest_perm.nodup_iff.mpr (List.nodup_append.mpr ⟨hmoves.nodup, hselected.filter _, ?_⟩)
    rintro id hid _ hid' rfl
    exact (hmoves.unselected id hid).2 (hmoves.selected id hid')
  · intro hmem
    rcases List.mem_append.mp (hmoves.dest_perm.mem_iff.mp hmem) with hdropped | hadded
    · exact (hactive _ (hmoves.unselected _ hdropped).1).1 rfl
    · exact hself (hmoves.selected _ hadded)
  · intro action hmem
    rcases List.mem_append.mp (hmoves.perm.mem_iff.mp hmem) with hdropped | hadded
    · obtain ⟨id, _, rfl⟩ := List.mem_map.mp hdropped
      exact .inr ⟨id, rfl⟩
    · obtain ⟨id, _, rfl⟩ := List.mem_map.mp hadded
      exact .inl ⟨id, rfl⟩
  · intro id hmem
    obtain ⟨hin, hneeded⟩ := List.mem_filter.mp (hmoves.connect_mem.mp hmem)
    have hidle : ¬ ctx.active id = true := fun h => by simp [h] at hneeded
    rw [active_iff hmap hstates, not_or] at hidle
    exact ⟨hin, hidle⟩
  · intro id hmem
    obtain ⟨hin, hout⟩ := hmoves.unselected id (hmoves.disconnect_mem.mp hmem)
    exact ⟨mem_connectedIds.mp hin, hout⟩
  · refine ⟨pruned, hpruned, hpruned ▸ List.prefix_append _ _, fun hmany => ?_⟩
    rw [hlength, if_neg (Nat.not_le.mpr hmany)]
  · have hperm := hmoves.connectionsAfter_perm
    rw [hperm.length_eq]
    exact hfits.imp id fun hall id hid => hall id (hperm.mem_iff.mp hid)

end Consistency

/-- In every mode and configuration the actions of a balancing are consistent and
respect the connection limit. -/
theorem balancer_actions_consistent (b : DNVE3ConnectionBalancer) (config : Config Float32) (selfPos : Position)
    {allNodes : List (NodeId × Position)} {states : List (NodeId × ConnectionState)} {selfId : NodeId}
    (densityGuidance : Option DensityGuidance)
    (hnodes : (allNodes.map (·.1)).Nodup) (hself : selfId ∉ allNodes.map (·.1))
    (hstates : (states.map (·.1)).Nodup) (hself' : selfId ∉ states.map (·.1)) :
    Consistent (b.actionContext config selfPos allNodes states selfId densityGuidance) states
      (b.selectConnectionsWithDensityGuidance config selfPos allNodes states selfId densityGuidance) := by
  have hselects := b.selectedNodes_selects config selfPos hnodes densityGuidance (target config)
  exact phases_consistent rfl (Nat.sub_le _ _) hselects.nodup hstates
    (fun hmem => hself (hselects.known _ hmem)) hself'

/-- A node far away is connected, one nearby is known. -/
theorem balancer_actions_consistent_two :
    let config : Config Float32 := .newDefault
    let allNodes : List (NodeId × Position) := [(⟨"near"⟩, ⟨1.0, 0.0, 0.0⟩), (⟨"far"⟩, ⟨90.0, 0.0, 0.0⟩)]
    let states : List (NodeId × ConnectionState) := [(⟨"far"⟩, .connected)]
    Consistent ((new config).actionContext config .zero allNodes states ⟨"self"⟩ none) states
      ((new config).selectConnectionsWithDensityGuidance config .zero allNodes states ⟨"self"⟩ none) :=
  balancer_actions_consistent _ _ _ none (by decide) (by decide) (by decide) (by decide)

end DNVE3ConnectionBalancer

end Mistlib.Overlay
