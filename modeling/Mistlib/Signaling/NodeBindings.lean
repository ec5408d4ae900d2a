import Mistlib.Async.Reactive
import Mistlib.Signaling.Admission

/-!
# The bindings of nodes to keys

Several node ids may be bound to one key, and a binding lasts as long as the entry of its key. An
entry goes when it expires, when a node bound to its key is unbound, and when such a node is
rebound to another key; the bindings of all other nodes to the key go with it, at the next
sweep. `undisturbed_iff` says that this is the only way in which a call for one node disturbs
another, and `epochs_forward` what is true of a node's epochs until it happens.

Each reading of the clock is an argument, and nothing is assumed of their order.
-/

namespace Mistlib.Signaling

open Reactive (Move Run)

namespace DiscoveryTable

variable (t : DiscoveryTable)

/-- `bind_node_with_epoch`: the table is swept when it begins and once more when the
entry of the key is made. -/
def bindNodeWithEpochAt (now inserted : Nat) (nodeId : NodeId) (signalingPubkey : String)
    (expiresAt : Nat) (topologyRank : String) (senderEpoch : Option Nat) (allowRebind : Bool) :
    Except MistError BindOutcome × DiscoveryTable :=
  let t := t.sweepExpired now
  let bind (t : DiscoveryTable) (outcome : BindOutcome) (epoch : Option Nat) :
      Except MistError BindOutcome × DiscoveryTable :=
    let t := t.insertPubkeyWithRank inserted signalingPubkey expiresAt topologyRank
    (.ok outcome,
      { t with nodeToPubkey := t.nodeToPubkey.insert nodeId ⟨signalingPubkey, epoch⟩ })
  match t.nodeToPubkey.get nodeId with
  | none => bind t .new senderEpoch
  | some existing =>
    if existing.pubkey = signalingPubkey then
      bind t .known (newerEpoch existing.epoch senderEpoch)
    else if epochIsNewer existing.epoch senderEpoch ∨ allowRebind then
      bind (t.removePubkey existing.pubkey) (.rebound existing.pubkey) senderEpoch
    else (.error (.signaling "Nostr sender node id changed pubkey"), t)

def unbindNode (nodeId : NodeId) : Option String × DiscoveryTable :=
  match t.nodeToPubkey.get nodeId with
  | none => (none, t)
  | some binding =>
    (some binding.pubkey,
      { t with nodeToPubkey := t.nodeToPubkey.erase nodeId }.removePubkey binding.pubkey)

def activePubkeys (now : Nat) : List String × DiscoveryTable :=
  let t := t.sweepExpired now
  (t.byPubkey.keys, t)

def clear : DiscoveryTable := new

/-- The table once a key is entered and a node bound to it. -/
def enter (inserted : Nat) (nodeId : NodeId) (pubkey : String) (expiresAt : Nat) (rank : String)
    (epoch : Option Nat) : DiscoveryTable :=
  let t := t.insertPubkeyWithRank inserted pubkey expiresAt rank
  { t with nodeToPubkey := t.nodeToPubkey.insert nodeId ⟨pubkey, epoch⟩ }

/-- A node is bound, and its key has an entry that has not expired at any of some
times. -/
def Alive (times : List Nat) (nodeId : NodeId) (binding : NodeBinding) : Prop :=
  t.nodeToPubkey.get nodeId = some binding ∧
    ∃ entry, t.byPubkey.get binding.pubkey = some entry ∧ ∀ time ∈ times, time < entry.expiresAt

/-- The key of every bound node has an entry. -/
def Backed : Prop := ∀ nodeId binding, t.nodeToPubkey.get nodeId = some binding → t.Alive [] nodeId binding

variable {t} {t' : DiscoveryTable} {now inserted expiresAt : Nat} {times times' : List Nat}
  {node m : NodeId} {pubkey rank : String} {binding existing : NodeBinding} {epoch : Option Nat}
  {allowRebind : Bool}

/-! ### The steps of a call -/

theorem Alive.mono (h : t.Alive times m binding) (hsub : times' ⊆ times) : t.Alive times' m binding := by
  obtain ⟨hget, entry, hentry, hfresh⟩ := h
  exact ⟨hget, entry, hentry, fun time htime => hfresh time (hsub htime)⟩

theorem binding_sweepExpired :
    (t.sweepExpired now).nodeToPubkey.get m = some binding ↔ t.Alive [now] m binding := by
  rw [sweepExpired, Table.get_retain, Option.filter_eq_some_iff, Table.contains_iff]
  simp only [Alive, Table.get_retain, Option.filter_eq_some_iff, decide_eq_true_eq, gt_iff_lt,
    List.forall_mem_singleton]

theorem alive_sweepExpired (hnow : now ∈ times) :
    (t.sweepExpired now).Alive times m binding ↔ t.Alive times m binding := by
  constructor
  · rintro ⟨hget, entry, hentry, hfresh⟩
    exact ⟨(binding_sweepExpired.mp hget).1, entry, (get_sweepExpired.mp hentry).1, hfresh⟩
  · intro h
    refine ⟨binding_sweepExpired.mpr (h.mono (List.cons_subset.mpr ⟨hnow, List.nil_subset _⟩)), ?_⟩
    obtain ⟨_, entry, hentry, hfresh⟩ := h
    exact ⟨entry, get_sweepExpired.mpr ⟨hentry, hfresh now hnow⟩, hfresh⟩

theorem alive_removePubkey :
    (t.removePubkey pubkey).Alive times m binding ↔ t.Alive times m binding ∧ binding.pubkey ≠ pubkey := by
  simp only [Alive, removePubkey, Table.get_erase]
  split
  · next heq => simp [heq]
  · next hne => simp [hne]

theorem alive_insertPubkeyWithRank (hnow : inserted ∈ times) (h : t.Alive times m binding) :
    (t.insertPubkeyWithRank inserted pubkey expiresAt rank).Alive times m binding := by
  obtain ⟨hget, entry, hentry, hfresh⟩ := (alive_sweepExpired hnow).mpr h
  refine ⟨hget, ?_⟩
  simp only [insertPubkeyWithRank, Table.get_insert]
  split
  · next heq =>
    rw [← heq, hentry]
    exact ⟨_, rfl, fun time htime => Nat.lt_of_lt_of_le (hfresh time htime) (Nat.le_max_left _ _)⟩
  · exact ⟨entry, hentry, hfresh⟩

theorem binding_enter_of_ne (hne : m ≠ node) :
    (t.enter inserted node pubkey expiresAt rank epoch).nodeToPubkey.get m =
      (t.sweepExpired inserted).nodeToPubkey.get m := by
  rw [enter, Table.get_insert, if_neg hne, insertPubkeyWithRank]

theorem alive_enter_of_ne (hne : m ≠ node) (hnow : inserted ∈ times) (h : t.Alive times m binding) :
    (t.enter inserted node pubkey expiresAt rank epoch).Alive times m binding := by
  obtain ⟨hget, hentry⟩ : (t.insertPubkeyWithRank inserted pubkey expiresAt rank).Alive times m binding :=
    alive_insertPubkeyWithRank hnow h
  refine ⟨?_, hentry⟩
  rw [enter, Table.get_insert, if_neg hne]
  exact hget

theorem alive_touchNode {ttlSeconds : Nat} (hnow : now ∈ times) (h : t.Alive times m binding) :
    (t.touchNode now node ttlSeconds).Alive times m binding := by
  obtain ⟨hget, entry, hentry, hfresh⟩ := (alive_sweepExpired hnow).mpr h
  unfold touchNode
  dsimp only
  split
  · exact ⟨hget, entry, hentry, hfresh⟩
  · next existing _ =>
    refine ⟨hget, ?_⟩
    dsimp only
    rw [Table.get_modify, hentry]
    split
    · exact ⟨_, rfl, fun time htime => Nat.lt_of_lt_of_le (hfresh time htime) (Nat.le_max_left _ _)⟩
    · exact ⟨entry, rfl, hfresh⟩

variable (t : DiscoveryTable) (inserted expiresAt : Nat) (node : NodeId) (pubkey rank : String)
  (epoch : Option Nat)

theorem alive_enter_self :
    (t.enter inserted node pubkey expiresAt rank epoch).Alive [] node ⟨pubkey, epoch⟩ := by
  refine ⟨by rw [enter, Table.get_insert_self], ?_⟩
  simp only [enter, insertPubkeyWithRank, Table.get_insert_self]
  exact ⟨_, rfl, List.forall_mem_nil _⟩

theorem backed_sweepExpired (now : Nat) : (t.sweepExpired now).Backed := by
  intro nodeId binding h
  have halive := binding_sweepExpired.mp h
  exact ((alive_sweepExpired List.mem_cons_self).mpr halive).mono (List.nil_subset _)

theorem backed_insertPubkeyWithRank :
    (t.insertPubkeyWithRank inserted pubkey expiresAt rank).Backed := by
  intro nodeId binding h
  have halive := binding_sweepExpired.mp h
  exact (alive_insertPubkeyWithRank List.mem_cons_self halive).mono (List.nil_subset _)

theorem backed_touchNode (now : Nat) (node : NodeId) (ttlSeconds : Nat) :
    (t.touchNode now node ttlSeconds).Backed := by
  intro nodeId binding h
  have hsame : (t.touchNode now node ttlSeconds).nodeToPubkey = (t.sweepExpired now).nodeToPubkey := by
    unfold touchNode
    dsimp only
    split
    · rfl
    · rfl
  rw [hsame] at h
  exact (alive_touchNode List.mem_cons_self (binding_sweepExpired.mp h)).mono (List.nil_subset _)

theorem backed_enter : (t.enter inserted node pubkey expiresAt rank epoch).Backed := by
  intro nodeId binding h
  by_cases hne : nodeId = node
  · subst hne
    have hself := t.alive_enter_self inserted expiresAt nodeId pubkey rank epoch
    obtain rfl := Option.some.inj (hself.1.symm.trans h)
    exact hself
  · rw [binding_enter_of_ne hne] at h
    exact (alive_enter_of_ne hne List.mem_cons_self (binding_sweepExpired.mp h)).mono (List.nil_subset _)

/-! ### The calls for a node -/

inductive BindStep (t : DiscoveryTable) (now inserted : Nat) (node : NodeId) (pubkey : String)
    (expiresAt : Nat) (rank : String) (epoch : Option Nat) (allowRebind : Bool) :
    Except MistError BindOutcome × DiscoveryTable → Prop where
  | new (hnone : (t.sweepExpired now).nodeToPubkey.get node = none) :
    BindStep t now inserted node pubkey expiresAt rank epoch allowRebind
      (.ok .new, (t.sweepExpired now).enter inserted node pubkey expiresAt rank epoch)
  | known (existing : NodeBinding) (hget : (t.sweepExpired now).nodeToPubkey.get node = some existing)
    (hsame : existing.pubkey = pubkey) :
    BindStep t now inserted node pubkey expiresAt rank epoch allowRebind
      (.ok .known, (t.sweepExpired now).enter inserted node pubkey expiresAt rank (newerEpoch existing.epoch epoch))
  | rebound (existing : NodeBinding) (hget : (t.sweepExpired now).nodeToPubkey.get node = some existing)
    (hother : existing.pubkey ≠ pubkey) (hnewer : epochIsNewer existing.epoch epoch ∨ allowRebind) :
    BindStep t now inserted node pubkey expiresAt rank epoch allowRebind
      (.ok (.rebound existing.pubkey),
        ((t.sweepExpired now).removePubkey existing.pubkey).enter inserted node pubkey expiresAt rank epoch)
  | refused (existing : NodeBinding) (hget : (t.sweepExpired now).nodeToPubkey.get node = some existing)
    (hother : existing.pubkey ≠ pubkey) (hold : ¬ (epochIsNewer existing.epoch epoch ∨ allowRebind)) :
    BindStep t now inserted node pubkey expiresAt rank epoch allowRebind
      (.error (.signaling "Nostr sender node id changed pubkey"), t.sweepExpired now)

/-- What a bind does, case by case. -/
theorem bindStep (now inserted : Nat) (node : NodeId) (pubkey : String) (expiresAt : Nat)
    (rank : String) (epoch : Option Nat) (allowRebind : Bool) :
    BindStep t now inserted node pubkey expiresAt rank epoch allowRebind
      (t.bindNodeWithEpochAt now inserted node pubkey expiresAt rank epoch allowRebind) := by
  unfold bindNodeWithEpochAt
  dsimp only
  split
  · next hnone => exact .new hnone
  · next existing hget =>
    split
    · next hsame => exact .known existing hget hsame
    · next hother =>
      split
      · next hnewer => exact .rebound existing hget hother hnewer
      · next hold => exact .refused existing hget hother hold

end DiscoveryTable

inductive NodeCall where
  | bind (now inserted : Nat) (pubkey : String) (expiresAt : Nat) (rank : String) (epoch : Option Nat)
    (allowRebind : Bool)
  | unbind
  | touch (now ttlSeconds : Nat)

namespace NodeCall

def apply (node : NodeId) (t : DiscoveryTable) : NodeCall → DiscoveryTable
  | .bind now inserted pubkey expiresAt rank epoch allowRebind =>
    (t.bindNodeWithEpochAt now inserted node pubkey expiresAt rank epoch allowRebind).2
  | .unbind => (t.unbindNode node).2
  | .touch now ttlSeconds => t.touchNode now node ttlSeconds

def times : NodeCall → List Nat
  | .bind now inserted _ _ _ _ _ => [now, inserted]
  | .unbind => []
  | .touch now _ => [now]

/-- The key whose entry the call removes: the one that the node is unbound from, or
rebound from. -/
def takesAway (node : NodeId) (t : DiscoveryTable) : NodeCall → Option String
  | .bind _ _ pubkey _ _ epoch allowRebind =>
    ((t.nodeToPubkey.get node).filter fun existing =>
      decide (existing.pubkey ≠ pubkey ∧ (epochIsNewer existing.epoch epoch ∨ allowRebind))).map
        NodeBinding.pubkey
  | .unbind => (t.nodeToPubkey.get node).map NodeBinding.pubkey
  | .touch _ _ => none

variable {t : DiscoveryTable} {node m : NodeId} {binding existing : NodeBinding} {times : List Nat}
  {call : NodeCall}

theorem takesAway_bind {now inserted expiresAt : Nat} {pubkey rank : String} {epoch : Option Nat}
    {allowRebind : Bool} (hget : t.nodeToPubkey.get node = some existing) :
    (NodeCall.bind now inserted pubkey expiresAt rank epoch allowRebind).takesAway node t =
      if existing.pubkey ≠ pubkey ∧ (epochIsNewer existing.epoch epoch ∨ allowRebind) then
        some existing.pubkey
      else none := by
  rw [takesAway, hget, Option.filter_some]
  split
  · next h => rw [if_pos (of_decide_eq_true h), Option.map_some]
  · next h => rw [if_neg fun hc => h (decide_eq_true hc), Option.map_none]

/-- A call for another node keeps a binding whose key it leaves. -/
theorem alive_apply (hne : m ≠ node) (hsub : call.times ⊆ times) (h : t.Alive times m binding)
    (hkeep : call.takesAway node t ≠ some binding.pubkey) : (call.apply node t).Alive times m binding := by
  cases call with
  | bind now inserted pubkey expiresAt rank epoch allowRebind =>
    have hnow : now ∈ times := hsub List.mem_cons_self
    have hinserted : inserted ∈ times := hsub (List.mem_cons_of_mem _ List.mem_cons_self)
    have hswept := (DiscoveryTable.alive_sweepExpired hnow).mpr h
    have hstep := t.bindStep now inserted node pubkey expiresAt rank epoch allowRebind
    show DiscoveryTable.Alive (t.bindNodeWithEpochAt now inserted node pubkey expiresAt rank epoch allowRebind).2
      times m binding
    generalize t.bindNodeWithEpochAt now inserted node pubkey expiresAt rank epoch allowRebind = r at hstep
    cases hstep with
    | new _ | known existing _ _ => exact DiscoveryTable.alive_enter_of_ne hne hinserted hswept
    | rebound existing hget hother hnewer =>
      rw [takesAway_bind (DiscoveryTable.binding_sweepExpired.mp hget).1, if_pos ⟨hother, hnewer⟩] at hkeep
      refine DiscoveryTable.alive_enter_of_ne hne hinserted (DiscoveryTable.alive_removePubkey.mpr ⟨hswept, ?_⟩)
      exact fun heq => hkeep (congrArg some heq.symm)
    | refused existing _ _ _ => exact hswept
  | unbind =>
    show (t.unbindNode node).2.Alive times m binding
    rw [takesAway] at hkeep
    unfold DiscoveryTable.unbindNode
    split
    · exact h
    · next existing hget =>
      rw [hget, Option.map_some] at hkeep
      obtain ⟨hbound, hentry⟩ := h
      refine DiscoveryTable.alive_removePubkey.mpr ⟨⟨?_, hentry⟩, fun heq => hkeep (congrArg some heq.symm)⟩
      rw [Table.get_erase, if_neg hne]
      exact hbound
  | touch now ttlSeconds => exact DiscoveryTable.alive_touchNode (hsub List.mem_cons_self) h

/-- A call that takes its key away ends another node's binding. -/
theorem not_alive_of_takesAway (hne : m ≠ node) (h : t.Alive call.times m binding)
    (htaken : call.takesAway node t = some binding.pubkey) : ¬ (call.apply node t).Alive [] m binding := by
  cases call with
  | bind now inserted pubkey expiresAt rank epoch allowRebind =>
    obtain ⟨existing, hfilter, hpubkey⟩ := Option.map_eq_some_iff.mp htaken
    obtain ⟨hget, hrebind⟩ := Option.filter_eq_some_iff.mp hfilter
    obtain ⟨hother, hnewer⟩ := of_decide_eq_true hrebind
    -- the node is bound to the same key, so its binding is found as well
    have hfound : (t.sweepExpired now).nodeToPubkey.get node = some existing := by
      obtain ⟨_, entry, hentry, hfresh⟩ := h
      refine DiscoveryTable.binding_sweepExpired.mpr ⟨hget, entry, by rw [hpubkey, hentry], ?_⟩
      exact List.forall_mem_singleton.mpr (hfresh now List.mem_cons_self)
    have hstep := t.bindStep now inserted node pubkey expiresAt rank epoch allowRebind
    show ¬ DiscoveryTable.Alive
      (t.bindNodeWithEpochAt now inserted node pubkey expiresAt rank epoch allowRebind).2 [] m binding
    generalize t.bindNodeWithEpochAt now inserted node pubkey expiresAt rank epoch allowRebind = r at hstep
    cases hstep with
    | new hnone =>
      rw [hfound] at hnone
      cases hnone
    | known found hget' hsame =>
      cases hfound.symm.trans hget'
      exact absurd hsame hother
    | rebound found hget' _ _ =>
      cases hfound.symm.trans hget'
      rintro ⟨hbound, _⟩
      rw [DiscoveryTable.binding_enter_of_ne hne, DiscoveryTable.binding_sweepExpired,
        DiscoveryTable.alive_removePubkey] at hbound
      exact hbound.2 hpubkey.symm
    | refused found hget' _ hold =>
      cases hfound.symm.trans hget'
      exact absurd hnewer hold
  | unbind =>
    obtain ⟨existing, hget, hpubkey⟩ := Option.map_eq_some_iff.mp htaken
    show ¬ (t.unbindNode node).2.Alive [] m binding
    unfold DiscoveryTable.unbindNode
    rw [hget]
    exact fun halive => (DiscoveryTable.alive_removePubkey.mp halive).2 hpubkey.symm
  | touch now ttlSeconds => cases htaken

end NodeCall

inductive TableCall where
  | node (nodeId : NodeId) (call : NodeCall)
  | insertPubkey (now : Nat) (pubkey : String) (expiresAt : Nat) (rank : String)
  | pubkeyForNode (now : Nat) (nodeId : NodeId)
  | activePubkeys (now : Nat)
  | responderPubkeysFor (now : Nat) (subjectPubkey subjectRank localPubkey localRank : String) (limit : Nat)
  | sweepExpired (now : Nat)
  | clear

namespace TableCall

def apply (t : DiscoveryTable) : TableCall → DiscoveryTable
  | .node nodeId call => call.apply nodeId t
  | .insertPubkey now pubkey expiresAt rank => t.insertPubkeyWithRank now pubkey expiresAt rank
  | .pubkeyForNode now nodeId => (t.pubkeyForNode now nodeId).2
  | .activePubkeys now => (t.activePubkeys now).2
  | .responderPubkeysFor now subjectPubkey subjectRank localPubkey localRank limit =>
    (t.responderPubkeysFor now subjectPubkey subjectRank localPubkey localRank limit).2
  | .sweepExpired now => t.sweepExpired now
  | .clear => DiscoveryTable.clear

def times : TableCall → List Nat
  | .node _ call => call.times
  | .insertPubkey now _ _ _ | .pubkeyForNode now _ | .activePubkeys now
  | .responderPubkeysFor now _ _ _ _ _ | .sweepExpired now => [now]
  | .clear => []

end TableCall

namespace DiscoveryTable

def after (calls : List TableCall) : DiscoveryTable := calls.foldl TableCall.apply new

end DiscoveryTable

/-- A call for one node leaves the binding of another as it is, and the binding is still
answered, exactly if the call does not take the entry of its key away. -/
theorem undisturbed_iff (t : DiscoveryTable) (call : NodeCall) (node m : NodeId) (later : Nat)
    (binding : NodeBinding) (hne : m ≠ node) (halive : t.Alive (later :: call.times) m binding) :
    ((call.apply node t).nodeToPubkey.get m = some binding ∧
        ((call.apply node t).pubkeyForNode later m).1 = some binding.pubkey) ↔
      call.takesAway node t ≠ some binding.pubkey := by
  constructor
  · rintro ⟨hget, hanswer⟩ htaken
    obtain ⟨found, hfound, _⟩ := Option.map_eq_some_iff.mp hanswer
    have hfound := DiscoveryTable.binding_sweepExpired.mp hfound
    obtain rfl := Option.some.inj (hget.symm.trans hfound.1)
    exact NodeCall.not_alive_of_takesAway hne (halive.mono (List.subset_cons_self _ _)) htaken
      (hfound.mono (List.nil_subset _))
  · intro hkeep
    have hafter := NodeCall.alive_apply hne (List.subset_cons_self _ _) halive hkeep
    refine ⟨hafter.1, ?_⟩
    have hswept := DiscoveryTable.binding_sweepExpired.mpr
      (hafter.mono (List.cons_subset.mpr ⟨List.mem_cons_self, List.nil_subset _⟩))
    rw [DiscoveryTable.pubkeyForNode, hswept, Option.map_some]

/-- Two nodes that are bound to one key. -/
def sharedCalls : List TableCall :=
  [.node ⟨"n"⟩ (.bind 0 0 "key" 100 "key" none false), .node ⟨"m"⟩ (.bind 0 0 "key" 100 "key" none false)]

/-- Unbinding a node takes away the binding of the other node that has its key. -/
theorem not_undisturbed :
    ¬ ∀ (calls : List TableCall) (call : NodeCall) (node m : NodeId) (later : Nat) (binding : NodeBinding),
      m ≠ node → (DiscoveryTable.after calls).Alive (later :: call.times) m binding →
        (call.apply node (DiscoveryTable.after calls)).nodeToPubkey.get m = some binding ∧
          ((call.apply node (DiscoveryTable.after calls)).pubkeyForNode later m).1 = some binding.pubkey := by
  intro hclaim
  have halive : (DiscoveryTable.after sharedCalls).Alive [0] ⟨"m"⟩ ⟨"key", none⟩ :=
    ⟨rfl, ⟨"key", 100, "key"⟩, rfl, by decide⟩
  have hanswer := (hclaim sharedCalls .unbind ⟨"n"⟩ ⟨"m"⟩ 0 ⟨"key", none⟩ (by decide) halive).2
  revert hanswer
  decide

theorem undisturbed_iff_shared :
    ((NodeCall.touch 5 60).apply ⟨"n"⟩ (DiscoveryTable.after sharedCalls)).nodeToPubkey.get ⟨"m"⟩ =
        some ⟨"key", none⟩ ∧
      (((NodeCall.touch 5 60).apply ⟨"n"⟩ (DiscoveryTable.after sharedCalls)).pubkeyForNode 6 ⟨"m"⟩).1 =
        some "key" :=
  (undisturbed_iff (DiscoveryTable.after sharedCalls) (.touch 5 60) ⟨"n"⟩ ⟨"m"⟩ 6 ⟨"key", none⟩ (by decide)
    ⟨rfl, ⟨"key", 100, "key"⟩, rfl, by decide⟩).mpr nofun

/-! ## Epochs -/

/-- A session is newer than the one on record, if there is one. -/
def Outruns (stored candidate : Option Nat) : Prop :=
  ∃ incoming, candidate = some incoming ∧ ∀ epoch, stored = some epoch → epoch < incoming

/-- An epoch on record is not followed by a lower one or by none. -/
def EpochLe (stored later : Option Nat) : Prop :=
  ∀ epoch, stored = some epoch → ∃ epoch', later = some epoch' ∧ epoch ≤ epoch'

theorem epochIsNewer_iff {stored candidate : Option Nat} :
    epochIsNewer stored candidate = true ↔ Outruns stored candidate := by
  rw [epochIsNewer, Option.any_eq_true]
  refine exists_congr fun incoming => and_congr_right fun _ => ?_
  cases stored with
  | none | some epoch => simp

theorem EpochLe.refl (stored : Option Nat) : EpochLe stored stored := fun epoch h => ⟨epoch, h, le_rfl⟩

theorem EpochLe.trans {a b c : Option Nat} (h : EpochLe a b) (h' : EpochLe b c) : EpochLe a c := by
  intro epoch heq
  obtain ⟨epoch', heq', hle⟩ := h epoch heq
  obtain ⟨epoch'', heq'', hle'⟩ := h' epoch' heq'
  exact ⟨epoch'', heq'', Nat.le_trans hle hle'⟩

theorem epochLe_newerEpoch (stored incoming : Option Nat) : EpochLe stored (newerEpoch stored incoming) := by
  rintro epoch rfl
  cases incoming with
  | none => exact ⟨epoch, rfl, le_rfl⟩
  | some incoming => exact ⟨_, rfl, Nat.le_max_left _ _⟩

theorem Outruns.epochLe {stored candidate : Option Nat} (h : Outruns stored candidate) :
    EpochLe stored candidate := by
  obtain ⟨incoming, rfl, hnewer⟩ := h
  exact fun epoch heq => ⟨incoming, rfl, Nat.le_of_lt (hnewer epoch heq)⟩

/-- A call in which a node's entry does not expire, and which neither unbinds the node
nor lets it be rebound without a newer epoch. -/
structure Continues (n : NodeId) (t : DiscoveryTable) (call : TableCall) : Prop where
  fresh : ∀ binding entry, t.nodeToPubkey.get n = some binding → t.byPubkey.get binding.pubkey = some entry →
    ∀ time ∈ call.times, time < entry.expiresAt
  stays : call ≠ .node n .unbind ∧ call ≠ .clear
  strict : ∀ now inserted pubkey expiresAt rank epoch,
    call ≠ .node n (.bind now inserted pubkey expiresAt rank epoch true)

/-- A call that also leaves the entry of the node's key in place: it is not taken away
with another node that is bound to the key. -/
structure Spares (n : NodeId) (t : DiscoveryTable) (call : TableCall) : Prop extends Continues n t call where
  others : ∀ node c binding, call = .node node c → node ≠ n → t.nodeToPubkey.get n = some binding →
    c.takesAway node t ≠ some binding.pubkey

def TableCall.Binds (n : NodeId) (pubkey : String) (epoch : Option Nat) (call : TableCall) : Prop :=
  ∃ now inserted expiresAt rank allowRebind,
    call = .node n (.bind now inserted pubkey expiresAt rank epoch allowRebind)

namespace Spares

variable {n : NodeId} {t t' : DiscoveryTable} {call : TableCall} {binding : NodeBinding}

theorem bind (now inserted : Nat) (pubkey : String) (expiresAt : Nat) (rank : String) (epoch : Option Nat)
    (h : t.Alive [now, inserted] n binding) :
    ∃ binding', ((NodeCall.bind now inserted pubkey expiresAt rank epoch false).apply n t).Alive [] n binding' ∧
      EpochLe binding.epoch binding'.epoch ∧
        (binding'.pubkey = binding.pubkey ∨ binding'.pubkey = pubkey ∧ Outruns binding.epoch epoch) := by
  have hfound : (t.sweepExpired now).nodeToPubkey.get n = some binding :=
    DiscoveryTable.binding_sweepExpired.mpr (h.mono (List.cons_subset.mpr ⟨List.mem_cons_self, List.nil_subset _⟩))
  have hstep := t.bindStep now inserted n pubkey expiresAt rank epoch false
  show ∃ binding', DiscoveryTable.Alive
    (t.bindNodeWithEpochAt now inserted n pubkey expiresAt rank epoch false).2 [] n binding' ∧ _
  generalize t.bindNodeWithEpochAt now inserted n pubkey expiresAt rank epoch false = r at hstep
  cases hstep with
  | new hnone =>
    rw [hfound] at hnone
    cases hnone
  | known existing hget hsame =>
    cases hfound.symm.trans hget
    exact ⟨_, DiscoveryTable.alive_enter_self _ _ _ _ _ _ _, epochLe_newerEpoch _ _, Or.inl hsame.symm⟩
  | rebound existing hget hother hnewer =>
    cases hfound.symm.trans hget
    have hnewer : Outruns binding.epoch epoch := epochIsNewer_iff.mp (by simpa using hnewer)
    exact ⟨_, DiscoveryTable.alive_enter_self _ _ _ _ _ _ _, hnewer.epochLe, Or.inr ⟨rfl, hnewer⟩⟩
  | refused existing hget hother hold =>
    have hswept := (DiscoveryTable.alive_sweepExpired List.mem_cons_self).mpr h
    exact ⟨binding, hswept.mono (List.nil_subset _), .refl _, Or.inl rfl⟩

/-- While a binding lives its epoch only goes forward. -/
theorem step (h : t.Alive [] n binding) (hspares : Spares n t call) :
    ∃ binding', (call.apply t).Alive [] n binding' ∧ EpochLe binding.epoch binding'.epoch ∧
      (binding'.pubkey = binding.pubkey ∨
        ∃ epoch, call.Binds n binding'.pubkey epoch ∧ Outruns binding.epoch epoch) := by
  obtain ⟨hbound, entry, hentry, _⟩ := h
  have halive : t.Alive call.times n binding := ⟨hbound, entry, hentry, hspares.fresh binding entry hbound hentry⟩
  have hkept (h : (call.apply t).Alive call.times n binding) :
      ∃ binding', (call.apply t).Alive [] n binding' ∧ EpochLe binding.epoch binding'.epoch ∧
        (binding'.pubkey = binding.pubkey ∨
          ∃ epoch, call.Binds n binding'.pubkey epoch ∧ Outruns binding.epoch epoch) :=
    ⟨binding, h.mono (List.nil_subset _), .refl _, Or.inl rfl⟩
  cases call with
  | node node c =>
    by_cases hnode : node = n
    · subst hnode
      cases c with
      | bind now inserted pubkey expiresAt rank epoch allowRebind =>
        cases allowRebind with
        | true => exact absurd rfl (hspares.strict now inserted pubkey expiresAt rank epoch)
        | false =>
          obtain ⟨binding', halive', hle, hkey⟩ := bind now inserted pubkey expiresAt rank epoch halive
          refine ⟨binding', halive', hle, hkey.imp_right ?_⟩
          rintro ⟨rfl, hnewer⟩
          exact ⟨epoch, ⟨now, inserted, expiresAt, rank, false, rfl⟩, hnewer⟩
      | unbind => exact absurd rfl hspares.stays.1
      | touch now ttlSeconds => exact hkept (DiscoveryTable.alive_touchNode List.mem_cons_self halive)
    · exact hkept (NodeCall.alive_apply (Ne.symm hnode) (List.Subset.refl _) halive
        (hspares.others node c binding rfl hnode hbound))
  | insertPubkey now pubkey expiresAt rank =>
    exact hkept (DiscoveryTable.alive_insertPubkeyWithRank List.mem_cons_self halive)
  | pubkeyForNode now nodeId | activePubkeys now | sweepExpired now =>
    exact hkept ((DiscoveryTable.alive_sweepExpired List.mem_cons_self).mpr halive)
  | responderPubkeysFor now subjectPubkey subjectRank localPubkey localRank limit =>
    refine hkept ?_
    rw [TableCall.apply, DiscoveryTable.responderPubkeysFor_table]
    exact (DiscoveryTable.alive_sweepExpired List.mem_cons_self).mpr halive
  | clear => exact absurd rfl hspares.stays.2

end Spares

namespace DiscoveryTable

theorem epochForNode_of_get {t : DiscoveryTable} {n : NodeId} {binding : NodeBinding}
    (h : t.nodeToPubkey.get n = some binding) : t.epochForNode n = binding.epoch := by
  rw [epochForNode, h]
  rfl

theorem outruns_of_rebound {t : DiscoveryTable} {now inserted expiresAt : Nat} {node : NodeId}
    {pubkey rank previous : String} {epoch : Option Nat}
    (h : (t.bindNodeWithEpochAt now inserted node pubkey expiresAt rank epoch false).1 = .ok (.rebound previous)) :
    Outruns (t.epochForNode node) epoch := by
  have hstep := t.bindStep now inserted node pubkey expiresAt rank epoch false
  generalize t.bindNodeWithEpochAt now inserted node pubkey expiresAt rank epoch false = r at h hstep
  cases hstep with
  | new _ | known _ _ _ | refused _ _ _ _ => cases h
  | rebound existing hget _ hnewer =>
    rw [epochForNode_of_get (binding_sweepExpired.mp hget).1]
    exact epochIsNewer_iff.mp (by simpa using hnewer)

theorem swept_of_refused {t : DiscoveryTable} {now inserted expiresAt : Nat} {node : NodeId}
    {pubkey rank : String} {epoch : Option Nat} {allowRebind : Bool} {error : MistError}
    (h : (t.bindNodeWithEpochAt now inserted node pubkey expiresAt rank epoch allowRebind).1 = .error error) :
    (t.bindNodeWithEpochAt now inserted node pubkey expiresAt rank epoch allowRebind).2 = t.sweepExpired now := by
  have hstep := t.bindStep now inserted node pubkey expiresAt rank epoch allowRebind
  generalize t.bindNodeWithEpochAt now inserted node pubkey expiresAt rank epoch allowRebind = r at h hstep ⊢
  cases hstep with
  | new _ | known _ _ _ | rebound _ _ _ _ => cases h
  | refused _ _ _ _ => rfl

theorem backed_apply (t : DiscoveryTable) (call : TableCall) (hsweeps : ∀ node, call ≠ .node node .unbind) :
    (call.apply t).Backed := by
  cases call with
  | node node c =>
    cases c with
    | bind now inserted pubkey expiresAt rank epoch allowRebind =>
      have hstep := t.bindStep now inserted node pubkey expiresAt rank epoch allowRebind
      show Backed (t.bindNodeWithEpochAt now inserted node pubkey expiresAt rank epoch allowRebind).2
      generalize t.bindNodeWithEpochAt now inserted node pubkey expiresAt rank epoch allowRebind = r at hstep
      cases hstep with
      | new _ | known _ _ _ | rebound _ _ _ _ => exact backed_enter _ _ _ _ _ _ _
      | refused _ _ _ _ => exact backed_sweepExpired t now
    | unbind => exact absurd rfl (hsweeps node)
    | touch now ttlSeconds => exact backed_touchNode t now node ttlSeconds
  | insertPubkey now pubkey expiresAt rank => exact backed_insertPubkeyWithRank t now expiresAt pubkey rank
  | pubkeyForNode now nodeId | activePubkeys now | sweepExpired now => exact backed_sweepExpired t now
  | responderPubkeysFor now subjectPubkey subjectRank localPubkey localRank limit =>
    rw [TableCall.apply, responderPubkeysFor_table]
    exact backed_sweepExpired t now
  | clear => exact fun nodeId binding h => nomatch h

end DiscoveryTable

/-- Over a stretch of calls that spare a node, its epoch only moves forward, and it is not bound
to another key by calls that carry at most the epoch on record. -/
theorem epochs_forward {n : NodeId} {first t : DiscoveryTable} {moves : List (Move DiscoveryTable TableCall)}
    (run : Run (fun t call => some (TableCall.apply t call)) first moves t) {binding : NodeBinding}
    (hbound : first.Alive [] n binding) (hspares : ∀ m ∈ moves, Spares n m.before m.input) :
    (∃ binding', t.Alive [] n binding' ∧ EpochLe binding.epoch binding'.epoch) ∧
      (∀ pubkey ≠ binding.pubkey,
        (∀ m ∈ moves, ∀ epoch, m.input.Binds n pubkey epoch → EpochLe epoch (m.before.epochForNode n)) →
          ∃ binding', t.nodeToPubkey.get n = some binding' ∧ binding'.pubkey ≠ pubkey) ∧
      (∀ (t : DiscoveryTable) now inserted node pubkey expiresAt rank epoch previous,
        (t.bindNodeWithEpochAt now inserted node pubkey expiresAt rank epoch false).1 = .ok (.rebound previous) →
          Outruns (t.epochForNode node) epoch) ∧
      (∀ (t : DiscoveryTable) now inserted node pubkey expiresAt rank epoch allowRebind error,
        (t.bindNodeWithEpochAt now inserted node pubkey expiresAt rank epoch allowRebind).1 = .error error →
          (t.bindNodeWithEpochAt now inserted node pubkey expiresAt rank epoch allowRebind).2 =
            t.sweepExpired now) ∧
      (∀ (t : DiscoveryTable) call, (∀ node, call ≠ TableCall.node node .unbind) → (call.apply t).Backed) := by
  refine ⟨?_, fun pubkey hother hold => ?_, fun _ _ _ _ _ _ _ _ _ h => DiscoveryTable.outruns_of_rebound h,
    fun _ _ _ _ _ _ _ _ _ _ h => DiscoveryTable.swept_of_refused h, DiscoveryTable.backed_apply⟩
  · refine run.keepsUnder (P := fun t => ∃ binding', t.Alive [] n binding' ∧ EpochLe binding.epoch binding'.epoch)
      (C := Spares n) ⟨binding, hbound, .refl _⟩ ?_ hspares
    rintro s call s' ⟨before, halive, hle⟩ hcall hstep
    cases hstep
    obtain ⟨after, halive', hle', _⟩ := Spares.step halive hcall
    exact ⟨after, halive', hle.trans hle'⟩
  · have hkept := run.keepsUnder (P := fun t => ∃ binding', t.Alive [] n binding' ∧ binding'.pubkey ≠ pubkey)
      (C := fun t call => Spares n t call ∧
        ∀ epoch, call.Binds n pubkey epoch → EpochLe epoch (t.epochForNode n))
      ⟨binding, hbound, Ne.symm hother⟩ ?_ fun m hm => ⟨hspares m hm, hold m hm⟩
    · obtain ⟨binding', halive, hne⟩ := hkept
      exact ⟨binding', halive.1, hne⟩
    · rintro s call s' ⟨before, halive, hne⟩ ⟨hcall, hlow⟩ hstep
      cases hstep
      obtain ⟨after, halive', _, hkey⟩ := Spares.step halive hcall
      refine ⟨after, halive', fun heq => ?_⟩
      subst heq
      obtain hsame | ⟨epoch, hbinds, incoming, rfl, hnewer⟩ := hkey
      · exact hne hsame.symm
      · obtain ⟨stored, hstored, hle⟩ := hlow _ hbinds incoming rfl
        rw [DiscoveryTable.epochForNode_of_get halive.1] at hstored
        exact Nat.not_lt_of_le hle (hnewer stored hstored)

/-- A node has moved on to a second key, which another node is bound to as well. -/
def movedCalls : List TableCall :=
  [.node ⟨"n"⟩ (.bind 0 0 "old" 100 "old" (some 5) false), .node ⟨"n"⟩ (.bind 0 0 "new" 100 "new" (some 9) false),
    .node ⟨"m"⟩ (.bind 0 0 "new" 100 "new" none false)]

def movedTable : DiscoveryTable := DiscoveryTable.after movedCalls

/-- The other node is unbound, and an old announcement of the first comes in again. -/
def replayMoves : List (Move DiscoveryTable TableCall) :=
  [⟨(NodeCall.unbind).apply ⟨"m"⟩ movedTable, .node ⟨"n"⟩ (.bind 0 0 "old" 100 "old" (some 5) false)⟩,
    ⟨movedTable, .node ⟨"m"⟩ .unbind⟩]

/-- The old announcement wins the node back: nothing of it has expired, but the entry of
its second key went with the other node. -/
theorem not_epochs_forward :
    ¬ ∀ (calls : List TableCall) (moves : List (Move DiscoveryTable TableCall)) (t : DiscoveryTable) (n : NodeId),
      Run (fun t call => some (TableCall.apply t call)) (DiscoveryTable.after calls) moves t →
        (∀ m ∈ moves, Continues n m.before m.input) →
          EpochLe ((DiscoveryTable.after calls).epochForNode n) (t.epochForNode n) := by
  intro hclaim
  have hunbind : Continues ⟨"n"⟩ movedTable (.node ⟨"m"⟩ .unbind) :=
    ⟨fun _ _ _ _ => List.forall_mem_nil _, ⟨by simp, nofun⟩, fun _ _ _ _ _ _ => by simp⟩
  have hreplay : Continues ⟨"n"⟩ ((NodeCall.unbind).apply ⟨"m"⟩ movedTable)
      (.node ⟨"n"⟩ (.bind 0 0 "old" 100 "old" (some 5) false)) := by
    refine ⟨fun binding entry hget hentry => ?_, ⟨by simp, nofun⟩, fun _ _ _ _ _ _ => by simp⟩
    obtain rfl : NodeBinding.mk "new" (some 9) = binding := Option.some.inj hget
    cases hentry
  obtain ⟨later, hlater, hle⟩ := hclaim movedCalls replayMoves _ ⟨"n"⟩ ((Run.nil.snoc rfl).snoc rfl)
    (List.forall_mem_cons.mpr ⟨hreplay, List.forall_mem_singleton.mpr hunbind⟩) 9 rfl
  obtain rfl : 5 = later := Option.some.inj hlater
  exact absurd hle (by decide)

/-- A node that has moved on to a second key, and another one with a key of its own. -/
def apartTable : DiscoveryTable :=
  .after [.node ⟨"n"⟩ (.bind 0 0 "old" 100 "old" (some 5) false),
    .node ⟨"n"⟩ (.bind 0 0 "new" 100 "new" (some 9) false),
    .node ⟨"m"⟩ (.bind 0 0 "third" 100 "third" none false)]

/-- It moves on once more, the other one leaves, and its first announcement comes in again. -/
def apartCalls : List TableCall :=
  [.node ⟨"n"⟩ (.bind 1 1 "newest" 100 "newest" (some 12) false), .node ⟨"m"⟩ .unbind,
    .node ⟨"n"⟩ (.bind 2 2 "old" 100 "old" (some 5) false)]

def apartRun : List (Move DiscoveryTable TableCall) × DiscoveryTable :=
  Reactive.play (fun t call => some (TableCall.apply t call)) apartTable apartCalls.reverse

theorem spares_apart : ∀ m ∈ apartRun.1, Spares ⟨"n"⟩ m.before m.input := by
  refine List.forall_mem_cons.mpr ⟨?_, List.forall_mem_cons.mpr ⟨?_, List.forall_mem_singleton.mpr ?_⟩⟩
  · refine ⟨⟨fun binding entry hget hentry => ?_, ⟨by simp, by simp⟩, fun _ _ _ _ _ _ => by simp⟩, ?_⟩
    · obtain rfl : NodeBinding.mk "newest" (some 12) = binding := Option.some.inj hget
      obtain rfl : DiscoveryEntry.mk "newest" 100 "newest" = entry := Option.some.inj hentry
      decide
    · rintro node c binding heq hne
      exact absurd (TableCall.node.inj heq).1.symm hne
  · refine ⟨⟨fun _ _ _ _ => List.forall_mem_nil _, ⟨by simp, by simp⟩, fun _ _ _ _ _ _ => by simp⟩, ?_⟩
    rintro node c binding heq - hget
    obtain ⟨rfl, rfl⟩ := TableCall.node.inj heq
    obtain rfl : NodeBinding.mk "newest" (some 12) = binding := Option.some.inj hget
    decide
  · refine ⟨⟨fun binding entry hget hentry => ?_, ⟨by simp, by simp⟩, fun _ _ _ _ _ _ => by simp⟩, ?_⟩
    · obtain rfl : NodeBinding.mk "new" (some 9) = binding := Option.some.inj hget
      obtain rfl : DiscoveryEntry.mk "new" 100 "new" = entry := Option.some.inj hentry
      decide
    · rintro node c binding heq hne
      exact absurd (TableCall.node.inj heq).1.symm hne

/-- The newer announcement is taken, and the first one is refused. -/
theorem epochs_forward_replayed :
    apartRun.2.epochForNode ⟨"n"⟩ = some 12 ∧
      (∃ binding', apartRun.2.Alive [] ⟨"n"⟩ binding' ∧ EpochLe (some 9) binding'.epoch) ∧
      ∃ binding', apartRun.2.nodeToPubkey.get ⟨"n"⟩ = some binding' ∧ binding'.pubkey ≠ "old" := by
  have hbound : apartTable.Alive [] ⟨"n"⟩ ⟨"new", some 9⟩ :=
    ⟨rfl, ⟨"new", 100, "new"⟩, rfl, List.forall_mem_nil _⟩
  obtain ⟨hforward, hkey, _⟩ := epochs_forward (Reactive.run_play _ _ apartCalls.reverse) hbound spares_apart
  refine ⟨rfl, hforward, hkey "old" (by decide) ?_⟩
  refine List.forall_mem_cons.mpr ⟨?_, List.forall_mem_cons.mpr ⟨?_, List.forall_mem_singleton.mpr ?_⟩⟩
  · rintro epoch ⟨_, _, _, _, _, heq⟩
    obtain ⟨-, hcall⟩ := TableCall.node.inj heq
    cases hcall
    rintro _ ⟨⟩
    exact ⟨12, rfl, by decide⟩
  · rintro epoch ⟨_, _, _, _, _, heq⟩
    exact absurd (TableCall.node.inj heq).1 (by decide)
  · rintro epoch ⟨_, _, _, _, _, heq⟩
    obtain ⟨-, hcall⟩ := TableCall.node.inj heq
    exact absurd (NodeCall.bind.inj hcall).2.2.1 (by decide)

end Mistlib.Signaling
