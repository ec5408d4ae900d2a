import Mistlib.Async.Calls
import Mistlib.Async.Reactive
import Mistlib.Data.Table
import Mistlib.Types
import Mathlib.Data.List.Sort

/-!
# Published tracks and their audiences

The operations on local tracks, the attachment of a new peer and the reconciliation of the
sweeper. A change of tracks or audiences is made under `media_changes`, which is held while every
peer is brought in line with it. The synchronisation of one peer is one step, as nothing it reads
or writes changes meanwhile. Each of its calls on the connection may fail, and the first that
does ends it.

Tracks and peers are known by when they were made. A sender is recorded with the peer whose
connection it belongs to. `syncFailed` records whether the last synchronisation of a peer failed;
nothing reads it.
-/

open Reactive

namespace Mistlib.Transport.TrackAudience

abbrev TrackId := String

abbrev Track := Nat

abbrev PeerId := Nat

/-- `TrackAudience`: everybody, or the listed nodes. -/
abbrev Audience := Option (List NodeId)

def Audience.allows (audience : Audience) (node : NodeId) : Bool :=
  match audience with
  | none => true
  | some nodes => nodes.contains node

structure Peer where
  node : NodeId
  senders : Table TrackId Track
  needsTrackReconcile : Bool
  /-- The call that holds the lock. -/
  negotiating : Option Nat
  syncFailed : Bool
deriving DecidableEq

/-- The sweeper is to reconcile the peer. -/
def Peer.flag (p : Peer) : Peer := { p with needsTrackReconcile := true }

inductive Operation where
  | registerLocalTrack (id : TrackId) (track : Track)
  | setLocalTrackAudience (id : TrackId) (nodes : Option (List NodeId))
  | removeLocalTrack (id : TrackId)
  | publishLocalTrack (id : TrackId) (track : Track)
  | unpublishLocalTrack (id : TrackId)
deriving DecidableEq, Repr

abbrev ChangedPeers := List (NodeId × PeerId)

inductive Phase where
  | waiting (operation : Operation)
  /-- The change is made, and the peers are to be listed. -/
  | listing
  | syncing (peers : ChangedPeers) (changed : ChangedPeers)
  /-- `media_changes` is released, and the first of the peers is to be flagged. -/
  | flagging (changed : ChangedPeers)
  /-- `reconcile_track_offer` is about to look at the flag. -/
  | reconciling (peer : PeerId) (changed : ChangedPeers)
  /-- It waits for the lock of the peer. -/
  | offering (peer : PeerId) (changed : ChangedPeers)
  | offered (peer : PeerId) (changed : ChangedPeers)
  /-- `create_pc` has made the peer and is to drop the records of its node. -/
  | creating (node : NodeId) (peer : PeerId)
  | attaching (node : NodeId) (peer : PeerId)
  | inserting (node : NodeId) (peer : PeerId)
  | resyncing (node : NodeId) (peer : PeerId)
  | returned
deriving DecidableEq, Repr

namespace Phase

/-- The call is yet to synchronise the peer. -/
def toSync (peer : PeerId) : Phase → Bool
  | .listing => true
  | .syncing peers _ => decide (peer ∈ peers.map (·.2))
  | .resyncing _ other => decide (other = peer)
  | _ => false

def toFlag (peer : PeerId) : Phase → Bool
  | .syncing _ changed | .flagging changed | .reconciling _ changed | .offering _ changed
  | .offered _ changed => decide (peer ∈ changed.map (·.2))
  | _ => false

/-- The peer that the call synchronises next. -/
def syncs : Phase → Option (NodeId × PeerId)
  | .syncing (first :: _) _ => some first
  | .attaching node peer | .resyncing node peer => some (node, peer)
  | _ => none

/-- The peer that the call offers to next. -/
def offers : Phase → Option PeerId
  | .offering peer _ => some peer
  | _ => none

end Phase

structure Media where
  registeredTracks : Table TrackId Audience
  publishedTracks : Table TrackId Track
  publishedSenders : Table NodeId (Table TrackId PeerId)
  peers : Table NodeId PeerId
  /-- Every peer that was made. -/
  connections : List Peer
  /-- The call that holds the lock. -/
  mediaChanges : Option Nat
  calls : List Phase

inductive Input where
  | call (operation : Operation)
  | newPeer (node : NodeId)
  | sweep (node : NodeId)
  /-- The next step of a call. Hash maps yield their keys in `order`, at most
  `calls` of its calls on the connection succeed, and `ok` says whether an offer
  can be made, or was. -/
  | resume (i : Nat) (order : List String) (calls : Nat) (ok : Bool)
deriving DecidableEq, Repr

/-- What a hash map yields, in the order that its keys are listed in. -/
def arrange {α : Type} (order : List String) (key : α → String) (yielded : List α) : List α :=
  yielded.insertionSort fun a b => order.idxOf (key a) ≤ order.idxOf (key b)

theorem arrange_perm {α : Type} (order : List String) (key : α → String) (yielded : List α) :
    (arrange order key yielded).Perm yielded :=
  List.perm_insertionSort _ yielded

/-- What a synchronisation changes: the senders recorded for the node, and what
the connections have. -/
structure Sending where
  recorded : Table TrackId PeerId
  connections : List Peer

namespace Sending

def track (s : Sending) (peer : PeerId) (id : TrackId) : Option Track :=
  s.connections[peer]?.bind (·.senders.get id)

def removeTrack (s : Sending) (peer : PeerId) (id : TrackId) : Sending where
  recorded := s.recorded.erase id
  connections := s.connections.modify peer fun p => { p with senders := p.senders.erase id }

def replaceTrack (s : Sending) (peer : PeerId) (id : TrackId) (track : Track) : Sending :=
  { s with
    connections := s.connections.modify peer fun p => { p with senders := p.senders.modify id fun _ => track } }

def addLocalTrack (s : Sending) (peer : PeerId) (id : TrackId) (track : Track) : Sending where
  recorded := s.recorded.insert id peer
  connections := s.connections.modify peer fun p => { p with senders := p.senders.insert id track }

/-- The senders that are not wanted any more, and how many more calls succeed. A
connection refuses the sender of another one. -/
def removeSenders (peer : PeerId) : List TrackId → Nat → Sending → Sending × Option Nat
  | [], calls, s => (s, some calls)
  | _ :: _, 0, s => (s, none)
  | id :: ids, calls + 1, s =>
    if s.recorded.get id = some peer then removeSenders peer ids calls (s.removeTrack peer id)
    else (s, none)

/-- The tracks that are wanted, and whether a sender was added or removed. -/
def addSenders (peer : PeerId) : List (TrackId × Track) → Nat → Bool → Sending → Sending × Option Bool
  | [], _, changed, s => (s, some changed)
  | (id, track) :: tracks, calls, changed, s =>
    match s.recorded.get id with
    | some owner =>
      if s.track owner id = some track then addSenders peer tracks calls changed s
      else
        match calls with
        | 0 => (s, none)
        | calls + 1 => addSenders peer tracks calls changed (s.replaceTrack owner id track)
    | none =>
      match calls with
      | 0 => (s, none)
      | calls + 1 => addSenders peer tracks calls true (s.addLocalTrack peer id track)

/-- The senders of the peer are brought in line with the tracks. -/
def sync (peer : PeerId) (order : List String) (tracks : List (TrackId × Track)) (calls : Nat)
    (s : Sending) : Sending × Option Bool :=
  let removed := s.recorded.keys.filter fun id => tracks.all (·.1 ≠ id)
  match removeSenders peer (arrange order id removed) calls s with
  | (s, none) => (s, none)
  | (s, some calls) => addSenders peer (arrange order (·.1) tracks) calls (!removed.isEmpty) s

end Sending

namespace Media

def new : Media where
  registeredTracks := ∅
  publishedTracks := ∅
  publishedSenders := ∅
  peers := ∅
  connections := []
  mediaChanges := none
  calls := []

/-- A track that is not registered is for everybody. -/
def audienceAllows (registered : Table TrackId Audience) (id : TrackId) (node : NodeId) : Bool :=
  match registered.get id with
  | none => true
  | some audience => audience.allows node

/-- The published tracks whose audience the node is in. -/
def tracksFor (t : Media) (node : NodeId) : List (TrackId × Track) :=
  (t.publishedTracks.entries.filter fun e => audienceAllows t.registeredTracks e.1 node).map
    fun e => (e.1, e.2)

def senders (t : Media) (node : NodeId) : Table TrackId PeerId := (t.publishedSenders.get node).getD ∅

/-- The transport after the synchronisation, and whether a sender was added or
removed, or nothing if it failed. -/
def syncPeerTracks (t : Media) (node : NodeId) (peer : PeerId) (order : List String) (calls : Nat) :
    Media × Option Bool :=
  let tracks := t.tracksFor node
  if tracks = [] ∧ t.publishedSenders.contains node = false then (t, some false)
  else
    let r := Sending.sync peer order tracks calls ⟨t.senders node, t.connections⟩
    ({ t with
      publishedSenders := t.publishedSenders.insert node r.1.recorded
      connections := r.1.connections }, r.2)

def setPeer (t : Media) (peer : PeerId) (f : Peer → Peer) : Media :=
  { t with connections := t.connections.modify peer f }

/-- A synchronisation, whose outcome is noted. -/
def synced (t : Media) (node : NodeId) (peer : PeerId) (order : List String) (calls : Nat) :
    Media × Option Bool :=
  let (after, changed) := t.syncPeerTracks node peer order calls
  (after.setPeer peer fun p => { p with syncFailed := changed.isNone }, changed)

def registerTrack (t : Media) (id : TrackId) : Media :=
  if t.registeredTracks.contains id then t
  else { t with registeredTracks := t.registeredTracks.insert id none }

/-- What an operation changes under `media_changes`. An unknown track is an error. -/
def apply (t : Media) : Operation → Option Media
  | .registerLocalTrack id track =>
    let t := t.registerTrack id
    some { t with publishedTracks := t.publishedTracks.modify id fun _ => track }
  | .setLocalTrackAudience id nodes =>
    if t.registeredTracks.contains id then
      some { t with registeredTracks := t.registeredTracks.insert id nodes }
    else none
  | .removeLocalTrack id =>
    if t.registeredTracks.contains id then
      some { t with
        registeredTracks := t.registeredTracks.erase id
        publishedTracks := t.publishedTracks.erase id }
    else none
  | .publishLocalTrack id track =>
    let t := t.registerTrack id
    some { t with publishedTracks := t.publishedTracks.insert id track }
  | .unpublishLocalTrack id => some { t with publishedTracks := t.publishedTracks.erase id }

def offerable (t : Media) (peer : PeerId) : Bool :=
  match t.connections[peer]? with
  | none => false
  | some p => p.negotiating.isNone

/-- The next step of the call `i`: the state after it, and its next phase. -/
def turn (t : Media) (i : Nat) (order : List String) (calls : Nat) (ok : Bool) : Phase → Option (Media × Phase)
  | .waiting operation =>
    if t.mediaChanges ≠ none then none
    else
      match t.apply operation with
      | none => some (t, .returned)
      | some after => some ({ after with mediaChanges := some i }, .listing)
  | .listing => some (t, .syncing (arrange order (·.1.id) (t.peers.entries.map fun e => (e.1, e.2))) [])
  | .syncing [] changed => some ({ t with mediaChanges := none }, .flagging changed)
  | .syncing ((node, peer) :: rest) changed =>
    match t.synced node peer order calls with
    | (after, some false) => some (after, .syncing rest changed)
    | (after, _) => some (after, .syncing rest (changed ++ [(node, peer)]))
  | .flagging [] => some (t, .returned)
  | .flagging ((_, peer) :: rest) =>
    some (t.setPeer peer Peer.flag, .reconciling peer rest)
  | .reconciling peer rest =>
    if (t.connections[peer]?.map (·.needsTrackReconcile)) = some true then some (t, .offering peer rest)
    else some (t, .flagging rest)
  | .offering peer rest =>
    if t.offerable peer = false then none
    else if ok then
      some (t.setPeer peer fun p => { p with needsTrackReconcile := false, negotiating := some i },
        .offered peer rest)
    else some (t, .flagging rest)
  | .offered peer rest =>
    some (t.setPeer peer fun p =>
      { p with needsTrackReconcile := p.needsTrackReconcile || !ok, negotiating := none }, .flagging rest)
  | .creating node peer =>
    some ({ t with publishedSenders := t.publishedSenders.erase node }, .attaching node peer)
  | .attaching node peer =>
    if t.mediaChanges ≠ none then none
    else
      match t.synced node peer order calls with
      | (after, some _) => some (after, .inserting node peer)
      | (after, none) => some (after, .returned)
  | .inserting node peer => some ({ t with peers := t.peers.insert node peer }, .resyncing node peer)
  | .resyncing node peer =>
    if t.mediaChanges ≠ none then none
    else
      match t.synced node peer order calls with
      | (after, some _) => some (after, .returned)
      | (after, none) =>
        some (after.setPeer peer Peer.flag, .returned)
  | .returned => none

def begin (t : Media) (phase : Phase) : Media := { t with calls := t.calls ++ [phase] }

def step (t : Media) : Input → Option Media
  | .call operation => some (t.begin (.waiting operation))
  | .newPeer node =>
    some { t.begin (.creating node t.connections.length) with
      connections := t.connections ++ [⟨node, ∅, false, none, false⟩] }
  | .sweep node => (t.peers.get node).map fun peer => t.begin (.reconciling peer [])
  | .resume i order calls ok =>
    t.calls[i]?.bind fun phase =>
      (t.turn i order calls ok phase).map fun (after, phase) => { after with calls := t.calls.set i phase }

def Quiescent (t : Media) : Prop := ∀ phase ∈ t.calls, phase = .returned
deriving Decidable

/-- The track a node is to get under an id: the published one, if its audience
allows the node. -/
def wanted (t : Media) (node : NodeId) (id : TrackId) : Option Track :=
  if audienceAllows t.registeredTracks id node then t.publishedTracks.get id else none

/-- The peer sends exactly the tracks that its node is to get. -/
def InLine (t : Media) (node : NodeId) (p : Peer) : Prop := ∀ id, p.senders.get id = t.wanted node id

/-- A call in progress is yet to synchronise the peer. -/
def ToSync (t : Media) (peer : PeerId) : Prop := ∃ phase ∈ t.calls, phase.toSync peer = true

/-- A call in progress is yet to flag the peer. -/
def ToFlag (t : Media) (peer : PeerId) : Prop := ∃ phase ∈ t.calls, phase.toFlag peer = true

/-- The senders recorded for the node are those of the peer. -/
def Recorded (t : Media) (node : NodeId) (peer : PeerId) : Prop :=
  ∀ p, t.connections[peer]? = some p →
    ∀ id, (t.senders node).get id = (p.senders.get id).map fun _ => peer

/-- The step does not synchronise a peer with other senders recorded for its node
than its own, and it does not take the flag off a peer whose last synchronisation
failed, unless the peer is yet to be synchronised or flagged. -/
structure Heeds (t : Media) (phase : Phase) (ok : Bool) : Prop where
  recorded : ∀ node peer, phase.syncs = some (node, peer) → t.Recorded node peer
  flag : ok = true → ∀ peer p, phase.offers = some peer → t.connections[peer]? = some p →
    p.syncFailed = true → t.ToSync peer ∨ t.ToFlag peer

def Orderly (t : Media) : Input → Prop
  | .resume i _ _ ok => ∀ phase, t.calls[i]? = some phase → t.Heeds phase ok
  | _ => True

end Media

/-! ## The synchronisation of a peer -/

namespace Sending

variable {s : Sending} {connections : List Peer} {peer : PeerId} {p : Peer}
  {sent : Table TrackId Track}

/-- Of all that a synchronisation may change, the senders of the peer have. They
are recorded. -/
structure Has (s : Sending) (connections : List Peer) (peer : PeerId) (p : Peer)
    (sent : Table TrackId Track) : Prop where
  connections : s.connections = connections.set peer { p with senders := sent }
  recorded : ∀ id, s.recorded.get id = (sent.get id).map fun _ => peer

theorem modify_set {connections : List Peer} {peer : PeerId} {p q : Peer}
    (hp : connections[peer]? = some p) (f : Peer → Peer) :
    (connections.set peer q).modify peer f = connections.set peer (f q) := by
  have hlt := (List.getElem?_eq_some_iff.mp hp).1
  rw [List.modify_eq_set_getElem?, List.getElem?_set_self hlt]
  exact List.set_set ..

section

variable (h : s.Has connections peer p sent) (hp : connections[peer]? = some p) (id : TrackId)
include h hp id

theorem Has.removeTrack : (s.removeTrack peer id).Has connections peer p (sent.erase id) where
  connections := by
    rw [Sending.removeTrack, h.connections]
    exact modify_set hp _
  recorded other := by
    rw [Sending.removeTrack, Table.get_erase, Table.get_erase, h.recorded]
    split <;> rfl

theorem Has.replaceTrack (track : Track) :
    (s.replaceTrack peer id track).Has connections peer p (sent.modify id fun _ => track) where
  connections := by
    rw [Sending.replaceTrack, h.connections]
    exact modify_set hp _
  recorded other := by
    rw [Sending.replaceTrack, Table.get_modify, h.recorded]
    split
    · next heq =>
      subst heq
      rw [Option.map_map]
      rfl
    · rfl

theorem Has.addLocalTrack (track : Track) :
    (s.addLocalTrack peer id track).Has connections peer p (sent.insert id track) where
  connections := by
    rw [Sending.addLocalTrack, h.connections]
    exact modify_set hp _
  recorded other := by
    rw [Sending.addLocalTrack, Table.get_insert, Table.get_insert, h.recorded]
    split <;> rfl

theorem Has.track : s.track peer id = sent.get id := by
  have hlt := (List.getElem?_eq_some_iff.mp hp).1
  rw [Sending.track, h.connections, List.getElem?_set_self hlt]
  rfl

end

theorem Has.removeSenders (hp : connections[peer]? = some p) (ids : List TrackId) (calls : Nat)
    (h : s.Has connections peer p sent) :
    ∃ left, (Sending.removeSenders peer ids calls s).1.Has connections peer p left ∧
      ((Sending.removeSenders peer ids calls s).2 ≠ none →
        ∀ id, left.get id = if id ∈ ids then none else sent.get id) := by
  induction ids generalizing calls s sent with
  | nil => exact ⟨sent, h, fun _ id => by simp⟩
  | cons first ids ih =>
    cases calls with
    | zero => exact ⟨sent, h, fun hok => absurd rfl hok⟩
    | succ calls =>
      rw [Sending.removeSenders]
      split
      · obtain ⟨left, hleft, hget⟩ := ih calls (h.removeTrack hp first)
        refine ⟨left, hleft, fun hok id => ?_⟩
        rw [hget hok, Table.get_erase]
        by_cases hid : id = first
        · simp [hid]
        · simp [hid]
      · exact ⟨sent, h, fun hok => absurd rfl hok⟩

theorem Has.addSenders (hp : connections[peer]? = some p) (tracks : List (TrackId × Track))
    (hnodup : (tracks.map (·.1)).Nodup) (calls : Nat) (changed : Bool)
    (h : s.Has connections peer p sent) :
    ∃ more, (Sending.addSenders peer tracks calls changed s).1.Has connections peer p more ∧
      ((Sending.addSenders peer tracks calls changed s).2 ≠ none →
        (∀ id track, (id, track) ∈ tracks → more.get id = some track) ∧
          ∀ id, id ∉ tracks.map (·.1) → more.get id = sent.get id) := by
  induction tracks generalizing calls changed s sent with
  | nil => exact ⟨sent, h, fun _ => ⟨by simp, fun _ _ => rfl⟩⟩
  | cons first tracks ih =>
    obtain ⟨id, track⟩ := first
    obtain ⟨hnew, hnodup⟩ := List.nodup_cons.mp hnodup
    -- What the rest does, once the sender of the first one has its track.
    have hrest : ∀ (calls : Nat) (changed : Bool) (s' : Sending) (sent' : Table TrackId Track),
        s'.Has connections peer p sent' → sent'.get id = some track →
        (∀ other, other ≠ id → sent'.get other = sent.get other) →
        ∃ more, (Sending.addSenders peer tracks calls changed s').1.Has connections peer p more ∧
          ((Sending.addSenders peer tracks calls changed s').2 ≠ none →
            (∀ other tr, (other, tr) ∈ (id, track) :: tracks → more.get other = some tr) ∧
              ∀ other, other ∉ ((id, track) :: tracks).map (·.1) → more.get other = sent.get other) := by
      intro calls changed s' sent' hs' hfirst hothers
      obtain ⟨more, hmore, hget⟩ := ih hnodup calls changed hs'
      refine ⟨more, hmore, fun hok => ⟨fun other tr hmem => ?_, fun other hout => ?_⟩⟩
      · rcases List.mem_cons.mp hmem with heq | hmem
        · cases heq
          rw [(hget hok).2 id hnew, hfirst]
        · exact (hget hok).1 other tr hmem
      · rw [List.map_cons, List.mem_cons, not_or] at hout
        rw [(hget hok).2 other hout.2, hothers other hout.1]
    rw [Sending.addSenders.eq_def]
    simp only [h.recorded]
    cases hsent : sent.get id with
    | some old =>
      simp only [Option.map_some, h.track hp, hsent]
      split
      · next hsame => exact hrest calls changed s sent h (hsent.trans hsame) fun _ _ => rfl
      · cases calls with
        | zero => exact ⟨sent, h, fun hok => absurd rfl hok⟩
        | succ calls =>
          refine hrest calls changed _ _ (h.replaceTrack hp id track) ?_ fun other hother => ?_
          · rw [Table.get_modify, if_pos rfl, hsent]
            rfl
          · rw [Table.get_modify, if_neg hother]
    | none =>
      simp only [Option.map_none]
      cases calls with
      | zero => exact ⟨sent, h, fun hok => absurd rfl hok⟩
      | succ calls =>
        refine hrest calls true _ _ (h.addLocalTrack hp id track) ?_ fun other hother => ?_
        · rw [Table.get_insert, if_pos rfl]
        · rw [Table.get_insert, if_neg hother]

theorem Has.sync (hp : connections[peer]? = some p) (order : List String) (tracks : List (TrackId × Track))
    (hnodup : (tracks.map (·.1)).Nodup) (calls : Nat) (h : s.Has connections peer p sent) :
    ∃ after, (Sending.sync peer order tracks calls s).1.Has connections peer p after ∧
      ((Sending.sync peer order tracks calls s).2 ≠ none →
        (∀ id track, (id, track) ∈ tracks → after.get id = some track) ∧
          ∀ id, id ∉ tracks.map (·.1) → after.get id = none) := by
  unfold Sending.sync
  simp only
  generalize hremoved : s.recorded.keys.filter (fun id => tracks.all (·.1 ≠ id)) = removed
  obtain ⟨left, hleft, hgone⟩ := h.removeSenders hp (arrange order id removed) calls
  have htracks : ∀ e, e ∈ arrange order (·.1) tracks ↔ e ∈ tracks := fun e =>
    (arrange_perm order _ tracks).mem_iff
  split
  · next sending heq =>
    rw [heq] at hleft
    exact ⟨left, hleft, fun hok => absurd rfl hok⟩
  · next sending rest heq =>
    rw [heq] at hleft hgone
    obtain ⟨after, hafter, hget⟩ := hleft.addSenders hp (arrange order (·.1) tracks)
      (((arrange_perm order _ tracks).map _).nodup_iff.mpr hnodup) rest (!removed.isEmpty)
    refine ⟨after, hafter, fun hok => ⟨fun id track hmem => ?_, fun id hid => ?_⟩⟩
    · exact (hget hok).1 id track ((htracks _).mpr hmem)
    have hout : id ∉ (arrange order (·.1) tracks).map (·.1) := fun hmem =>
      hid (((arrange_perm order _ tracks).map _).mem_iff.mp hmem)
    rw [(hget hok).2 id hout, hgone (Option.some_ne_none rest) id]
    split
    · rfl
    · next hkept =>
      -- A sender that stays is not recorded, so there is none.
      have hall : tracks.all (·.1 ≠ id) = true :=
        List.all_eq_true.mpr fun e he => decide_eq_true fun heq => hid (List.mem_map.mpr ⟨e, he, heq⟩)
      have hnot : id ∉ s.recorded.keys := fun hkey =>
        hkept ((arrange_perm order _ removed).mem_iff.mpr (hremoved ▸ List.mem_filter.mpr ⟨hkey, hall⟩))
      have hunknown : s.recorded.get id = none := by
        rw [Option.eq_none_iff_forall_ne_some]
        exact fun owner howner => hnot (Table.mem_keys_iff.mpr ⟨owner, howner⟩)
      rw [h.recorded] at hunknown
      exact Option.map_eq_none_iff.mp hunknown

end Sending

namespace Media

variable {t : Media} {node : NodeId} {peer : PeerId} {p : Peer}

theorem mem_tracksFor {id : TrackId} {track : Track} :
    (id, track) ∈ t.tracksFor node ↔ t.wanted node id = some track := by
  unfold tracksFor wanted
  rw [List.mem_map]
  constructor
  · rintro ⟨⟨id', track'⟩, hmem, heq⟩
    cases heq
    obtain ⟨hmem, hallows⟩ := List.mem_filter.mp hmem
    rw [if_pos hallows]
    exact Table.get_eq_some_iff.mpr hmem
  · intro h
    split at h
    · next hallows =>
      exact ⟨⟨id, track⟩, List.mem_filter.mpr ⟨Table.get_eq_some_iff.mp h, hallows⟩, rfl⟩
    · cases h

theorem tracksFor_nodup (t : Media) (node : NodeId) : ((t.tracksFor node).map (·.1)).Nodup := by
  rw [tracksFor, List.map_map]
  exact t.publishedTracks.keys_nodup.sublist (List.filter_sublist.map _)

theorem wanted_eq_none {id : TrackId} (h : id ∉ (t.tracksFor node).map (·.1)) :
    t.wanted node id = none := by
  cases hwanted : t.wanted node id with
  | none => rfl
  | some track => exact absurd (List.mem_map.mpr ⟨_, mem_tracksFor.mpr hwanted, rfl⟩) h

/-- A synchronisation changes the senders of the peer, and if it succeeds, they
are those that the node is to get. -/
theorem syncPeerTracks_spec (hrec : t.Recorded node peer) (hp : t.connections[peer]? = some p)
    (order : List String) (calls : Nat) : ∃ recorded sent, (t.syncPeerTracks node peer order calls).1 =
        { t with
          publishedSenders := recorded
          connections := t.connections.set peer { p with senders := sent } } ∧
      ((t.syncPeerTracks node peer order calls).2 ≠ none → ∀ id, sent.get id = t.wanted node id) := by
  have hset : t.connections.set peer { p with senders := p.senders } = t.connections := by
    obtain ⟨hlt, rfl⟩ := List.getElem?_eq_some_iff.mp hp
    exact List.set_getElem_self hlt
  unfold syncPeerTracks
  simp only
  split
  · next hnone =>
    refine ⟨t.publishedSenders, p.senders, ?_, fun _ id => ?_⟩
    · rw [hset]
    · have hget : t.publishedSenders.get node = none :=
        Option.isNone_iff_eq_none.mp (Option.isSome_eq_false_iff.mp hnone.2)
      have hsenders : t.senders node = ∅ := by
        rw [senders, hget]
        rfl
      have hempty := hrec p hp id
      rw [hsenders, Table.get_empty] at hempty
      rw [wanted_eq_none (by rw [hnone.1]; simp), Option.map_eq_none_iff.mp hempty.symm]
  · have hhas : (⟨t.senders node, t.connections⟩ : Sending).Has t.connections peer p p.senders :=
      ⟨hset.symm, hrec p hp⟩
    obtain ⟨after, hafter, hget⟩ := hhas.sync hp order (t.tracksFor node) (tracksFor_nodup t node) calls
    refine ⟨_, after, by rw [hafter.connections], fun hok id => ?_⟩
    by_cases hid : id ∈ (t.tracksFor node).map (·.1)
    · obtain ⟨⟨id, track⟩, hmem, rfl⟩ := List.mem_map.mp hid
      rw [(hget hok).1 id track hmem, mem_tracksFor.mp hmem]
    · rw [(hget hok).2 id hid, wanted_eq_none hid]

/-- What a synchronisation of a peer leaves as it was, and what it makes of the
peer. -/
structure Syncs (t after : Media) (node : NodeId) (peer : PeerId) (outcome : Option Bool) : Prop where
  registeredTracks : after.registeredTracks = t.registeredTracks
  publishedTracks : after.publishedTracks = t.publishedTracks
  peers : after.peers = t.peers
  nodes : ∀ other : PeerId, after.connections[other]?.map (·.node) = t.connections[other]?.map (·.node)
  others : ∀ other : PeerId, other ≠ peer → after.connections[other]? = t.connections[other]?
  failed : ∀ p, after.connections[peer]? = some p → p.syncFailed = outcome.isNone
  inLine : ∀ p, after.connections[peer]? = some p → outcome ≠ none → t.InLine node p

theorem synced_spec {order : List String} {calls : Nat} {after : Media} {outcome : Option Bool}
    (h : t.synced node peer order calls = (after, outcome)) (hrec : t.Recorded node peer)
    (hp : t.connections[peer]? = some p) : t.Syncs after node peer outcome := by
  obtain ⟨recorded, sent, hafter, hget⟩ := syncPeerTracks_spec hrec hp order calls
  unfold synced at h
  generalize t.syncPeerTracks node peer order calls = r at h hafter hget
  obtain ⟨media, changed⟩ := r
  cases h
  have hmedia : media = _ := hafter
  subst hmedia
  have hlt := (List.getElem?_eq_some_iff.mp hp).1
  have hself : (t.connections.set peer
      { p with senders := sent, syncFailed := outcome.isNone })[peer]? =
        some { p with senders := sent, syncFailed := outcome.isNone } := List.getElem?_set_self hlt
  simp only [setPeer, Sending.modify_set hp]
  refine ⟨rfl, rfl, rfl, fun other => ?_, fun other hne => ?_, fun q hq => ?_, fun q hq hok => ?_⟩
  · by_cases hother : other = peer
    · subst hother
      rw [hself, hp]
      rfl
    · rw [List.getElem?_set_ne (Ne.symm hother)]
  · exact List.getElem?_set_ne (Ne.symm hne)
  · cases hself.symm.trans hq
    rfl
  · cases hself.symm.trans hq
    exact hget hok

theorem getElem?_setPeer (t : Media) (peer other : PeerId) (f : Peer → Peer) :
    (t.setPeer peer f).connections[other]? =
      if other = peer then t.connections[other]?.map f else t.connections[other]? := by
  rw [setPeer, List.getElem?_modify]
  by_cases h : other = peer
  · simp [h]
  · simp [h, Ne.symm h]

theorem apply_frame {operation : Operation} {after : Media} (h : t.apply operation = some after) :
    after.peers = t.peers ∧ after.connections = t.connections ∧ after.calls = t.calls := by
  have hregister : ∀ id, (t.registerTrack id).peers = t.peers ∧
      (t.registerTrack id).connections = t.connections ∧ (t.registerTrack id).calls = t.calls := by
    intro id
    unfold registerTrack
    split
    · exact ⟨rfl, rfl, rfl⟩
    · exact ⟨rfl, rfl, rfl⟩
  cases operation with
  | registerLocalTrack id track | publishLocalTrack id track =>
    cases h
    exact hregister id
  | unpublishLocalTrack id =>
    cases h
    exact ⟨rfl, rfl, rfl⟩
  | setLocalTrackAudience id nodes | removeLocalTrack id =>
    simp only [apply] at h
    split at h
    · cases h
      exact ⟨rfl, rfl, rfl⟩
    · cases h

end Media

end Mistlib.Transport.TrackAudience
