import Mistlib.Transport.TrackAudience

/-!
# Peers are brought in line with the tracks

Every registered peer is accounted for: it sends what its node is to get, or an operation in
progress or the sweeper is to see to it. The reconciliation of the sweeper makes an offer and does
not synchronise again.
-/

open Reactive

namespace Mistlib.Transport.TrackAudience

namespace Media

variable {t : Media} {node : NodeId} {peer : PeerId} {p : Peer}

/-! ## The turns of a call -/

/-- What a turn of the call `i` makes of the media and of its phase. -/
inductive Turns (t : Media) (i : Nat) (ok : Bool) : Phase → Media → Phase → Prop where
  | refused (operation : Operation) : Turns t i ok (.waiting operation) t .returned
  | changes (operation : Operation) (after : Media) : t.apply operation = some after →
      Turns t i ok (.waiting operation) { after with mediaChanges := some i } .listing
  | lists (order : List String) : Turns t i ok .listing t
      (.syncing (arrange order (·.1.id) (t.peers.entries.map fun e => (e.1, e.2))) [])
  | releases (changed : ChangedPeers) :
      Turns t i ok (.syncing [] changed) { t with mediaChanges := none } (.flagging changed)
  | syncs (node : NodeId) (peer : PeerId) (rest changed changed' : ChangedPeers)
      (order : List String) (calls : Nat) (after : Media) (outcome : Option Bool) :
      t.synced node peer order calls = (after, outcome) → changed ⊆ changed' →
      (outcome = none → (node, peer) ∈ changed') →
      Turns t i ok (.syncing ((node, peer) :: rest) changed) after (.syncing rest changed')
  | ends : Turns t i ok (.flagging []) t .returned
  | flags (node : NodeId) (peer : PeerId) (rest : ChangedPeers) :
      Turns t i ok (.flagging ((node, peer) :: rest))
        (t.setPeer peer Peer.flag) (.reconciling peer rest)
  | looks (peer : PeerId) (rest : ChangedPeers) :
      Turns t i ok (.reconciling peer rest) t (.offering peer rest)
  | passes (peer : PeerId) (rest : ChangedPeers) :
      Turns t i ok (.reconciling peer rest) t (.flagging rest)
  | defers (peer : PeerId) (rest : ChangedPeers) :
      Turns t i ok (.offering peer rest) t (.flagging rest)
  | offers (peer : PeerId) (rest : ChangedPeers) : ok = true →
      Turns t i ok (.offering peer rest)
        (t.setPeer peer fun p => { p with needsTrackReconcile := false, negotiating := some i })
        (.offered peer rest)
  | settles (peer : PeerId) (rest : ChangedPeers) :
      Turns t i ok (.offered peer rest)
        (t.setPeer peer fun p =>
          { p with needsTrackReconcile := p.needsTrackReconcile || !ok, negotiating := none })
        (.flagging rest)
  | forgets (node : NodeId) (peer : PeerId) :
      Turns t i ok (.creating node peer)
        { t with publishedSenders := t.publishedSenders.erase node } (.attaching node peer)
  | attaches (node : NodeId) (peer : PeerId) (order : List String) (calls : Nat) (after : Media)
      (changed : Bool) :
      t.synced node peer order calls = (after, some changed) →
      Turns t i ok (.attaching node peer) after (.inserting node peer)
  | givesUp (node : NodeId) (peer : PeerId) (order : List String) (calls : Nat) (after : Media) :
      t.synced node peer order calls = (after, none) → Turns t i ok (.attaching node peer) after .returned
  | inserts (node : NodeId) (peer : PeerId) :
      Turns t i ok (.inserting node peer) { t with peers := t.peers.insert node peer }
        (.resyncing node peer)
  | resyncs (node : NodeId) (peer : PeerId) (order : List String) (calls : Nat) (after : Media)
      (changed : Bool) :
      t.synced node peer order calls = (after, some changed) →
      Turns t i ok (.resyncing node peer) after .returned
  | resyncFails (node : NodeId) (peer : PeerId) (order : List String) (calls : Nat) (after : Media) :
      t.synced node peer order calls = (after, none) →
      Turns t i ok (.resyncing node peer)
        (after.setPeer peer Peer.flag) .returned

variable {i calls : Nat} {order : List String} {ok : Bool} {phase phase' : Phase} {after : Media}

theorem turn_cases (h : t.turn i order calls ok phase = some (after, phase')) :
    t.Turns i ok phase after phase' := by
  cases phase with
  | waiting operation =>
    simp only [turn] at h
    split at h
    · cases h
    · split at h
      · cases h
        exact .refused operation
      · next changed heq =>
        cases h
        exact .changes operation changed heq
  | listing =>
    cases h
    exact .lists order
  | syncing peers changed =>
    cases peers with
    | nil =>
      cases h
      exact .releases changed
    | cons first rest =>
      obtain ⟨node, peer⟩ := first
      simp only [turn] at h
      split at h
      · next after' hsynced =>
        cases h
        exact .syncs node peer rest changed changed order calls _ _ hsynced (fun _ h => h)
          (fun hnone => by cases hnone)
      · next after' outcome _ hsynced =>
        cases h
        exact .syncs node peer rest changed _ order calls _ _ hsynced (List.subset_append_left _ _)
          (fun _ => List.mem_append_right _ (List.mem_singleton.mpr rfl))
  | flagging changed =>
    cases changed with
    | nil =>
      cases h
      exact .ends
    | cons first rest =>
      obtain ⟨node, peer⟩ := first
      cases h
      exact .flags node peer rest
  | reconciling peer rest =>
    simp only [turn] at h
    split at h
    · cases h
      exact .looks peer rest
    · cases h
      exact .passes peer rest
  | offering peer rest =>
    simp only [turn] at h
    split at h
    · cases h
    · split at h
      · next hok =>
        cases h
        exact .offers peer rest hok
      · cases h
        exact .defers peer rest
  | offered peer rest =>
    cases h
    exact .settles peer rest
  | creating node peer =>
    cases h
    exact .forgets node peer
  | attaching node peer =>
    simp only [turn] at h
    split at h
    · cases h
    · split at h
      · next changed hsynced =>
        cases h
        exact .attaches node peer order calls _ changed hsynced
      · next hsynced =>
        cases h
        exact .givesUp node peer order calls _ hsynced
  | inserting node peer =>
    cases h
    exact .inserts node peer
  | resyncing node peer =>
    simp only [turn] at h
    split at h
    · cases h
    · split at h
      · next changed hsynced =>
        cases h
        exact .resyncs node peer order calls _ changed hsynced
      · next hsynced =>
        cases h
        exact .resyncFails node peer order calls _ hsynced
  | returned => cases h

end Media

/-! ## Every peer is made for one node -/

namespace Phase

/-- The peers that the call is to synchronise or to register, with their nodes. -/
def pairs : Phase → List (NodeId × PeerId)
  | .syncing peers _ => peers
  | .creating node peer | .attaching node peer | .inserting node peer
  | .resyncing node peer => [(node, peer)]
  | _ => []

/-- The peer that the call is to register. -/
def making : Phase → Option PeerId
  | .creating _ peer | .attaching _ peer | .inserting _ peer => some peer
  | _ => none

theorem syncs_mem {phase : Phase} {pair : NodeId × PeerId} (h : phase.syncs = some pair) :
    pair ∈ phase.pairs := by
  cases phase with
  | syncing peers changed =>
    cases peers with
    | nil => cases h
    | cons first rest =>
      cases h
      exact List.mem_cons_self
  | attaching node peer | resyncing node peer =>
    cases h
    exact List.mem_singleton.mpr rfl
  | _ => cases h

theorem making_mem {phase : Phase} {peer : PeerId} (h : phase.making = some peer) :
    ∃ node, (node, peer) ∈ phase.pairs := by
  cases phase with
  | creating node other | attaching node other | inserting node other =>
    cases h
    exact ⟨node, List.mem_singleton.mpr rfl⟩
  | _ => cases h

end Phase

namespace Media

variable {t after : Media} {node node' : NodeId} {peer : PeerId} {p : Peer} {i calls : Nat}
  {order : List String} {ok : Bool}
  {phase phase' : Phase} {outcome : Option Bool}

def Owns (t : Media) (node : NodeId) (peer : PeerId) : Prop :=
  t.connections[peer]?.map (·.node) = some node

theorem Owns.exists (h : t.Owns node peer) : ∃ p, t.connections[peer]? = some p ∧ p.node = node :=
  Option.map_eq_some_iff.mp h

theorem Owns.unique {other : NodeId} (h : t.Owns node peer) (hother : t.Owns other peer) :
    node = other :=
  Option.some.inj (h.symm.trans hother)

theorem Owns.lt (h : t.Owns node peer) : peer < t.connections.length := by
  obtain ⟨p, hp, -⟩ := h.exists
  exact (List.getElem?_eq_some_iff.mp hp).1

/-- The peers are those of their nodes, and one that is being made is registered
by nobody and made by one call. -/
structure Owned (t : Media) : Prop where
  registered : ∀ node peer, t.peers.get node = some peer → t.Owns node peer
  pairs : ∀ phase ∈ t.calls, ∀ node peer, (node, peer) ∈ phase.pairs → t.Owns node peer
  unregistered : ∀ (phase : Phase) peer, phase ∈ t.calls → phase.making = some peer →
    ∀ node, t.peers.get node ≠ some peer
  single : ∀ (i j : Nat) (phase other : Phase) peer, t.calls[i]? = some phase → t.calls[j]? = some other →
    phase.making = some peer → other.making = some peer → i = j

theorem Heeds.synced (hheeds : t.Heeds phase ok)
    (hpairs : ∀ node peer, (node, peer) ∈ phase.pairs → t.Owns node peer)
    (h : t.synced node peer order calls = (after, outcome)) (hsyncs : phase.syncs = some (node, peer)) :
    t.Syncs after node peer outcome := by
  obtain ⟨p, hp, -⟩ := (hpairs node peer (Phase.syncs_mem hsyncs)).exists
  exact synced_spec h (hheeds.recorded node peer hsyncs) hp

section

variable (h : t.Turns i ok phase after phase') (hheeds : t.Heeds phase ok)
  (hpairs : ∀ node peer, (node, peer) ∈ phase.pairs → t.Owns node peer)
include h hheeds hpairs

theorem Turns.owns (peer : PeerId) :
    after.connections[peer]?.map (·.node) = t.connections[peer]?.map (·.node) := by
  have hset : ∀ (t : Media) (other : PeerId) (f : Peer → Peer), (∀ p, (f p).node = p.node) →
      (t.setPeer other f).connections[peer]?.map (·.node) = t.connections[peer]?.map (·.node) := by
    intro t other f hf
    rw [getElem?_setPeer]
    split
    · rw [Option.map_map]
      exact Option.map_congr fun p _ => hf p
    · rfl
  have hsynced : ∀ node other order calls after outcome, t.synced node other order calls = (after, outcome) →
      phase.syncs = some (node, other) →
      after.connections[peer]?.map (·.node) = t.connections[peer]?.map (·.node) :=
    fun node other _ _ _ _ heq hsyncs => (hheeds.synced hpairs heq hsyncs).nodes peer
  cases h with
  | changes operation after happly =>
    have hframe := (apply_frame happly).2.1
    simp only [hframe]
  | syncs node other rest changed changed' order calls after outcome heq
  | attaches node other order calls after changed heq | givesUp node other order calls after heq
  | resyncs node other order calls after changed heq => exact hsynced _ _ _ _ _ _ heq rfl
  | flags node other rest | offers other rest | settles other rest => exact hset _ _ _ fun _ => rfl
  | resyncFails node other order calls after heq =>
    exact (hset after other Peer.flag fun _ => rfl).trans (hsynced _ _ _ _ _ _ heq rfl)
  | _ => rfl

theorem Turns.peers :
    (after.peers = t.peers ∧ ∀ peer, phase'.making = some peer → phase.making = some peer) ∨
      ∃ node peer, phase = .inserting node peer ∧ phase' = .resyncing node peer ∧
        after.peers = t.peers.insert node peer := by
  have hsynced : ∀ node other order calls after outcome, t.synced node other order calls = (after, outcome) →
      phase.syncs = some (node, other) → after.peers = t.peers := fun node other _ _ _ _ heq hsyncs =>
    (hheeds.synced hpairs heq hsyncs).peers
  cases h with
  | changes operation after happly => exact .inl ⟨(apply_frame happly).1, fun _ h => h⟩
  | syncs node other rest changed changed' order calls after outcome heq
  | attaches node other order calls after changed heq =>
    exact .inl ⟨hsynced _ _ _ _ _ _ heq rfl, fun _ h => h⟩
  | givesUp node other order calls after heq | resyncs node other order calls after changed heq =>
    exact .inl ⟨hsynced _ _ _ _ _ _ heq rfl, nofun⟩
  | resyncFails node other order calls after heq =>
    exact .inl ⟨hsynced node other order calls after none heq rfl, nofun⟩
  | inserts node other => exact .inr ⟨node, other, rfl, rfl, rfl⟩
  | _ => exact .inl ⟨rfl, fun _ h => h⟩

end

theorem Turns.pairs (h : t.Turns i ok phase after phase') {pair : NodeId × PeerId}
    (hmem : pair ∈ phase'.pairs) : pair ∈ phase.pairs ∨ t.peers.get pair.1 = some pair.2 := by
  cases h with
  | lists order =>
    obtain ⟨⟨node, peer⟩, hentry, rfl⟩ := List.mem_map.mp ((arrange_perm order _ _).mem_iff.mp hmem)
    exact .inr (Table.get_eq_some_iff.mpr hentry)
  | syncs => exact .inl (List.mem_cons_of_mem _ hmem)
  | forgets | attaches | inserts => exact .inl hmem
  | _ => cases hmem

/-- A turn that heeds its peers keeps the senders owned. -/
theorem Owned.turn (hInv : t.Owned) (hi : t.calls[i]? = some phase) (hheeds : t.Heeds phase ok)
    (h : t.Turns i ok phase after phase') : { after with calls := t.calls.set i phase' }.Owned := by
  have hpairs := hInv.pairs phase (List.mem_of_getElem? hi)
  have howns : ∀ {node peer}, t.Owns node peer →
      { after with calls := t.calls.set i phase' }.Owns node peer := fun {node peer} hown =>
    (h.owns hheeds hpairs peer).trans hown
  have hregistered : ∀ node peer, after.peers.get node = some peer →
      t.peers.get node = some peer ∨ phase = .inserting node peer ∧ phase' = .resyncing node peer := by
    intro node peer hget
    rcases h.peers hheeds hpairs with ⟨hpeers, -⟩ | ⟨node', peer', hphase, hphase', hpeers⟩
    · exact .inl (hpeers ▸ hget)
    · rw [hpeers, Table.get_insert] at hget
      split at hget
      · next hnode =>
        subst hnode
        cases hget
        exact .inr ⟨hphase, hphase'⟩
      · exact .inl hget
  have hmaking : ∀ peer, phase'.making = some peer → phase.making = some peer := by
    intro peer hmake
    rcases h.peers hheeds hpairs with ⟨-, hkeeps⟩ | ⟨node', peer', -, hphase', -⟩
    · exact hkeeps peer hmake
    · rw [hphase'] at hmake
      cases hmake
  refine ⟨fun node peer hget => ?_, fun other hmem node peer hpair => ?_, ?_, ?_⟩
  · rcases hregistered node peer hget with hget | ⟨rfl, -⟩
    · exact howns (hInv.registered node peer hget)
    · exact howns (hpairs node peer (List.mem_singleton.mpr rfl))
  · rcases List.mem_or_eq_of_mem_set hmem with hmem | rfl
    · exact howns (hInv.pairs other hmem node peer hpair)
    · rcases h.pairs hpair with hpair | hget
      · exact howns (hpairs node peer hpair)
      · exact howns (hInv.registered node peer hget)
  · intro other peer hmem hmake node hget
    obtain ⟨j, hj⟩ := List.mem_iff_getElem?.mp hmem
    rw [Calls.get_set hi] at hj
    rcases hregistered node peer hget with hget | ⟨rfl, rfl⟩
    · split at hj
      · cases hj
        exact hInv.unregistered phase peer (List.mem_of_getElem? hi) (hmaking peer hmake) node hget
      · exact hInv.unregistered other peer (List.mem_of_getElem? hj) hmake node hget
    · split at hj
      · cases hj
        cases hmake
      · next hne => exact hne (hInv.single j i other _ peer hj hi hmake rfl)
  · intro j k first second peer hj hk hfirst hsecond
    have hback : ∀ {l : Nat} {other : Phase}, (t.calls.set i phase')[l]? = some other →
        other.making = some peer → ∃ before, t.calls[l]? = some before ∧ before.making = some peer := by
      intro l other hl hmake
      rw [Calls.get_set hi] at hl
      split at hl
      · next heq =>
        cases hl
        exact ⟨phase, heq ▸ hi, hmaking peer hmake⟩
      · exact ⟨other, hl, hmake⟩
    obtain ⟨before, hj, hfirst⟩ := hback hj hfirst
    obtain ⟨before', hk, hsecond⟩ := hback hk hsecond
    exact hInv.single j k before before' peer hj hk hfirst hsecond

theorem Owned.begin (hInv : t.Owned) (hpairs : phase.pairs = []) : (t.begin phase).Owned where
  registered := hInv.registered
  pairs := by
    refine Calls.forall_begin hInv.pairs fun node peer hmem => ?_
    rw [hpairs] at hmem
    cases hmem
  unregistered other peer hmem hmake := by
    rcases List.mem_append.mp hmem with hmem | hmem
    · exact hInv.unregistered other peer hmem hmake
    · cases List.mem_singleton.mp hmem
      obtain ⟨node, hpair⟩ := Phase.making_mem hmake
      rw [hpairs] at hpair
      cases hpair
  single j k first second peer hj hk hfirst hsecond := by
    have hback : ∀ {l : Nat} {other : Phase}, (t.calls ++ [phase])[l]? = some other →
        other.making = some peer → t.calls[l]? = some other := by
      intro l other hl hmake
      rw [Calls.get_begin] at hl
      split at hl
      · cases hl
        obtain ⟨node, hpair⟩ := Phase.making_mem hmake
        rw [hpairs] at hpair
        cases hpair
      · exact hl
    exact hInv.single j k first second peer (hback hj hfirst) (hback hk hsecond) hfirst hsecond

theorem Owned.newPeer (hInv : t.Owned) (hstep : t.step (.newPeer node) = some after) : after.Owned := by
  cases hstep
  have howns : ∀ {node' peer}, t.Owns node' peer →
      { t.begin (.creating node t.connections.length) with
        connections := t.connections ++ [(⟨node, ∅, false, none, false⟩ : Peer)] }.Owns node' peer := by
    intro node' peer hown
    have hlt := hown.lt
    unfold Owns at hown ⊢
    rw [List.getElem?_append_left hlt, hown]
  refine ⟨fun node' peer hget => howns (hInv.registered node' peer hget), ?_, ?_, ?_⟩
  · refine Calls.forall_begin (fun other hmem node' peer hpair =>
      howns (hInv.pairs other hmem node' peer hpair)) fun node' peer hpair => ?_
    cases List.mem_singleton.mp hpair
    simp [Owns]
  · intro other peer hmem hmake node' hget
    rcases List.mem_append.mp hmem with hmem | hmem
    · exact hInv.unregistered other peer hmem hmake node' hget
    · cases List.mem_singleton.mp hmem
      cases hmake
      exact absurd (hInv.registered node' _ hget).lt (Nat.lt_irrefl _)
  · -- The new peer is none that an earlier call makes.
    have hold : ∀ {l : Nat} {other : Phase} {peer : PeerId}, t.calls[l]? = some other →
        other.making = some peer → peer < t.connections.length := by
      intro l other peer hl hmake
      obtain ⟨node', hpair⟩ := Phase.making_mem hmake
      exact (hInv.pairs other (List.mem_of_getElem? hl) node' peer hpair).lt
    intro j k first second peer hj hk hfirst hsecond
    have hj' : (t.calls ++ [Phase.creating node t.connections.length])[j]? = some first := hj
    have hk' : (t.calls ++ [Phase.creating node t.connections.length])[k]? = some second := hk
    rw [Calls.get_begin] at hj' hk'
    split at hj'
    · next hjlen =>
      split at hk'
      · next hklen => exact hjlen.trans hklen.symm
      · cases hj'
        cases hfirst
        exact absurd (hold hk' hsecond) (Nat.lt_irrefl _)
    · split at hk'
      · cases hk'
        cases hsecond
        exact absurd (hold hj' hfirst) (Nat.lt_irrefl _)
      · exact hInv.single j k first second peer hj' hk' hfirst hsecond

/-! ## Registered peers are accounted for -/

/-- A registered peer whose last synchronisation succeeded sends what its node is
to get, or it is yet to be synchronised. One whose last synchronisation failed is
flagged, or it is yet to be. -/
structure Accounted (t : Media) (node : NodeId) (peer : PeerId) (p : Peer) : Prop where
  kept : p.syncFailed = false → t.InLine node p ∨ t.ToSync peer
  deferred : p.syncFailed = true → p.needsTrackReconcile = true ∨ t.ToSync peer ∨ t.ToFlag peer

theorem Accounted.of_toSync (h : t.ToSync peer) : t.Accounted node peer p where
  kept _ := .inr h
  deferred _ := .inr (.inl h)

theorem inLine_congr {t' : Media} (hregistered : t'.registeredTracks = t.registeredTracks)
    (hpublished : t'.publishedTracks = t.publishedTracks) {p' : Peer} (hsenders : p'.senders = p.senders)
    (h : t.InLine node p) : t'.InLine node p' := by
  intro id
  rw [hsenders, h id, wanted, wanted, hregistered, hpublished]

section Turn

variable (hi : t.calls[i]? = some phase)

include hi

theorem ToSync.turn (h : t.ToSync peer) (hphase : phase.toSync peer = true → phase'.toSync peer = true) :
    { after with calls := t.calls.set i phase' }.ToSync peer :=
  Calls.exists_set (P := fun d : Phase => d.toSync peer = true) hi hphase h

theorem ToFlag.turn (h : t.ToFlag peer) (hphase : phase.toFlag peer = true → phase'.toFlag peer = true) :
    { after with calls := t.calls.set i phase' }.ToFlag peer :=
  Calls.exists_set (P := fun d : Phase => d.toFlag peer = true) hi hphase h

theorem toSync_of_turn (h : phase'.toSync peer = true) :
    { after with calls := t.calls.set i phase' }.ToSync peer :=
  Calls.exists_self (P := fun d : Phase => d.toSync peer = true) hi h

theorem toFlag_of_turn (h : phase'.toFlag peer = true) :
    { after with calls := t.calls.set i phase' }.ToFlag peer :=
  Calls.exists_self (P := fun d : Phase => d.toFlag peer = true) hi h

theorem Accounted.turn {p' : Peer} (h : t.Accounted node peer p)
    (hregistered : after.registeredTracks = t.registeredTracks)
    (hpublished : after.publishedTracks = t.publishedTracks) (hsenders : p'.senders = p.senders)
    (hfailed : p'.syncFailed = p.syncFailed)
    (hflagged : p.needsTrackReconcile = true → p'.needsTrackReconcile = true)
    (hsync : phase.toSync peer = true → phase'.toSync peer = true)
    (hflag : phase.toFlag peer = true → phase'.toFlag peer = true ∨ p'.needsTrackReconcile = true) :
    { after with calls := t.calls.set i phase' }.Accounted node peer p' where
  kept hok := by
    rcases h.kept (hfailed ▸ hok) with hline | hyet
    · exact .inl (inLine_congr hregistered hpublished hsenders hline)
    · exact .inr (hyet.turn hi hsync)
  deferred hbad := by
    by_cases hnow : p'.needsTrackReconcile = true
    · exact .inl hnow
    · rcases h.deferred (hfailed ▸ hbad) with hflagged' | hyet | hyet
      · exact .inl (hflagged hflagged')
      · exact .inr (.inl (hyet.turn hi hsync))
      · exact .inr (.inr (hyet.turn hi fun hphase => (hflag hphase).resolve_right hnow))

end Turn

theorem Syncs.accounted {other : PeerId} {p' : Peer} (hsyncs : t.Syncs after node peer outcome)
    (hi : t.calls[i]? = some phase) (hp' : after.connections[other]? = some p')
    (hacc : ∀ p, t.connections[other]? = some p → t.Accounted node' other p)
    (hnode : other = peer → node' = node)
    (hsync : other ≠ peer → phase.toSync other = true → phase'.toSync other = true)
    (hflag : phase.toFlag other = true → phase'.toFlag other = true)
    (hfails : other = peer → outcome = none →
      { after with calls := t.calls.set i phase' }.ToFlag other) :
    { after with calls := t.calls.set i phase' }.Accounted node' other p' := by
  by_cases hother : other = peer
  · refine ⟨fun hok => .inl ?_, fun hbad => .inr (.inr ?_)⟩
    · rw [hsyncs.failed p' (hother ▸ hp')] at hok
      have hline := hsyncs.inLine p' (hother ▸ hp') fun hnone => by rw [hnone] at hok; cases hok
      exact inLine_congr hsyncs.registeredTracks hsyncs.publishedTracks rfl (hnode hother ▸ hline)
    · rw [hsyncs.failed p' (hother ▸ hp')] at hbad
      exact hfails hother (Option.isNone_iff_eq_none.mp hbad)
  · rw [hsyncs.others other hother] at hp'
    exact (hacc p' hp').turn hi hsyncs.registeredTracks hsyncs.publishedTracks rfl rfl id (hsync hother)
      fun h => .inl (hflag h)

theorem Accounted.setPeer {other : PeerId} {f : Peer → Peer} {p' : Peer}
    (hi : t.calls[i]? = some phase) (hp' : (t.setPeer other f).connections[peer]? = some p')
    (hacc : ∀ p, t.connections[peer]? = some p → t.Accounted node peer p)
    (hsenders : ∀ p, (f p).senders = p.senders) (hfailed : ∀ p, (f p).syncFailed = p.syncFailed)
    (hflagged : ∀ p, p.needsTrackReconcile = true → (f p).needsTrackReconcile = true)
    (hsync : phase.toSync peer = true → phase'.toSync peer = true)
    (hflag : phase.toFlag peer = true → phase'.toFlag peer = true ∨
      peer = other ∧ ∀ p, (f p).needsTrackReconcile = true) :
    { t.setPeer other f with calls := t.calls.set i phase' }.Accounted node peer p' := by
  rw [getElem?_setPeer] at hp'
  split at hp'
  · obtain ⟨p, hp, rfl⟩ := Option.map_eq_some_iff.mp hp'
    exact (hacc p hp).turn hi rfl rfl (hsenders p) (hfailed p) (hflagged p) hsync fun h =>
      (hflag h).imp_right fun h => h.2 p
  · next hne =>
    exact (hacc p' hp').turn hi rfl rfl rfl rfl id hsync fun h =>
      .inl ((hflag h).resolve_right fun h => hne h.1)

theorem Turns.accounted (h : t.Turns i ok phase after phase') (hInv : t.Owned)
    (hi : t.calls[i]? = some phase) (hheeds : t.Heeds phase ok) {p' : Peer}
    (hacc : ∀ p, t.peers.get node = some peer → t.connections[peer]? = some p → t.Accounted node peer p)
    (hreg : after.peers.get node = some peer) (hp' : after.connections[peer]? = some p') :
    { after with calls := t.calls.set i phase' }.Accounted node peer p' := by
  have hpairs := hInv.pairs phase (List.mem_of_getElem? hi)
  have hsame : ∀ {other : NodeId}, t.peers.get node = some peer → t.Owns other peer → node = other :=
    fun hget hother => (hInv.registered node peer hget).unique hother
  cases h with
  | refused operation | forgets other target =>
    exact (hacc p' hreg hp').turn hi rfl rfl rfl rfl id nofun nofun
  | changes operation after happly => exact .of_toSync (toSync_of_turn hi rfl)
  | lists order =>
    refine .of_toSync (toSync_of_turn hi (decide_eq_true (List.mem_map.mpr ⟨(node, peer), ?_, rfl⟩)))
    exact (arrange_perm order _ _).mem_iff.mpr
      (List.mem_map.mpr ⟨⟨node, peer⟩, Table.get_eq_some_iff.mp hreg, rfl⟩)
  | releases changed =>
    exact (hacc p' hreg hp').turn hi rfl rfl rfl rfl id (by simp [Phase.toSync]) .inl
  | syncs other target rest changed changed' order calls after outcome heq hsub hfails =>
    have hsyncs := hheeds.synced hpairs heq rfl
    rw [hsyncs.peers] at hreg
    refine hsyncs.accounted hi hp' (fun p => hacc p hreg) ?_ ?_ ?_ ?_
    · rintro rfl
      exact hsame hreg (hpairs other peer List.mem_cons_self)
    · intro hne hyet
      have hmem := of_decide_eq_true hyet
      rw [List.map_cons, List.mem_cons] at hmem
      exact decide_eq_true (hmem.resolve_left hne)
    · exact fun hyet => decide_eq_true (List.map_subset _ hsub (of_decide_eq_true hyet))
    · rintro rfl hnone
      exact toFlag_of_turn hi (decide_eq_true (List.mem_map.mpr ⟨_, hfails hnone, rfl⟩))
  | ends =>
    exact (hacc p' hreg hp').turn hi rfl rfl rfl rfl id nofun
      (by simp [Phase.toFlag])
  | flags other target rest =>
    refine Accounted.setPeer hi hp' (fun p => hacc p hreg) (fun _ => rfl) (fun _ => rfl)
      (fun _ _ => rfl) nofun fun hyet => ?_
    have hmem := of_decide_eq_true hyet
    rw [List.map_cons, List.mem_cons] at hmem
    exact hmem.symm.imp decide_eq_true fun heq => ⟨heq, fun _ => rfl⟩
  | looks other rest | passes other rest | defers other rest =>
    exact (hacc p' hreg hp').turn hi rfl rfl rfl rfl id nofun .inl
  | offers other rest hok =>
    rw [getElem?_setPeer] at hp'
    split at hp'
    · next hpeer =>
      obtain ⟨p, hp, rfl⟩ := Option.map_eq_some_iff.mp hp'
      refine ⟨fun hkept => ?_, fun hbad => .inr ?_⟩
      · rcases (hacc p hreg hp).kept hkept with hline | hyet
        · exact .inl (inLine_congr rfl rfl rfl hline)
        · exact .inr (hyet.turn hi nofun)
      · rcases hheeds.flag hok other p rfl (hpeer ▸ hp) hbad with hyet | hyet
        · exact .inl ((hpeer ▸ hyet).turn hi nofun)
        · exact .inr ((hpeer ▸ hyet).turn hi id)
    · exact (hacc p' hreg hp').turn hi rfl rfl rfl rfl id nofun .inl
  | settles other rest =>
    refine Accounted.setPeer hi hp' (fun p => hacc p hreg) (fun _ => rfl) (fun _ => rfl)
      (fun p hflagged => ?_) nofun .inl
    simp [hflagged]
  | attaches other target order calls after changed heq =>
    have hsyncs := hheeds.synced hpairs heq rfl
    rw [hsyncs.peers] at hreg
    refine hsyncs.accounted hi hp' (fun p => hacc p hreg) ?_ nofun nofun
      nofun
    rintro rfl
    exact absurd hreg (hInv.unregistered _ _ (List.mem_of_getElem? hi) rfl node)
  | givesUp other target order calls after heq =>
    have hsyncs := hheeds.synced hpairs heq rfl
    rw [hsyncs.peers] at hreg
    have hne : peer ≠ target := by
      rintro rfl
      exact hInv.unregistered _ _ (List.mem_of_getElem? hi) rfl node hreg
    exact hsyncs.accounted hi hp' (fun p => hacc p hreg) (fun h => absurd h hne) nofun
      nofun (fun h _ => absurd h hne)
  | inserts other target =>
    have hget := hreg
    rw [Table.get_insert] at hget
    split at hget
    · cases hget
      exact .of_toSync (toSync_of_turn hi (decide_eq_true rfl))
    · exact (hacc p' hget hp').turn hi rfl rfl rfl rfl id nofun nofun
  | resyncs other target order calls after changed heq =>
    have hsyncs := hheeds.synced hpairs heq rfl
    rw [hsyncs.peers] at hreg
    refine hsyncs.accounted hi hp' (fun p => hacc p hreg) ?_ ?_ nofun
      nofun
    · rintro rfl
      exact hsame hreg (hpairs other peer (List.mem_singleton.mpr rfl))
    · exact fun hne hyet => absurd (of_decide_eq_true hyet).symm hne
  | resyncFails other target order calls after heq =>
    have hsyncs := hheeds.synced hpairs heq rfl
    have hreg' : after.peers.get node = some peer := hreg
    rw [hsyncs.peers] at hreg'
    rw [getElem?_setPeer] at hp'
    split at hp'
    · next hpeer =>
      obtain ⟨p, hp, rfl⟩ := Option.map_eq_some_iff.mp hp'
      refine ⟨fun hkept => ?_, fun _ => .inl rfl⟩
      have hfailed := hsyncs.failed p (hpeer ▸ hp)
      rw [show p.syncFailed = false from hkept] at hfailed
      cases hfailed
    · next hne =>
      rw [hsyncs.others peer hne] at hp'
      refine (hacc p' hreg' hp').turn hi hsyncs.registeredTracks hsyncs.publishedTracks rfl rfl id ?_
        nofun
      exact fun hyet => absurd (of_decide_eq_true hyet).symm hne

/-! ## Runs -/

structure Sound (t : Media) : Prop where
  owned : t.Owned
  accounted : ∀ node peer p, t.peers.get node = some peer → t.connections[peer]? = some p →
    t.Accounted node peer p

theorem sound_new : new.Sound where
  owned := by
    refine ⟨fun node peer h => ?_, fun phase h => ?_, fun phase peer h => ?_, fun i j phase other peer h => ?_⟩
    · rw [new, Table.get_empty] at h
      cases h
    · cases h
    · cases h
    · cases h
  accounted node peer p h := by
    rw [new, Table.get_empty] at h
    cases h

theorem Accounted.begin (h : t.Accounted node peer p)
    (hregistered : after.registeredTracks = t.registeredTracks)
    (hpublished : after.publishedTracks = t.publishedTracks) (hcalls : after.calls = t.calls ++ [phase]) :
    after.Accounted node peer p := by
  have hmem : ∀ d ∈ t.calls, d ∈ after.calls := fun d hd => hcalls ▸ List.mem_append_left _ hd
  refine ⟨fun hok => ?_, fun hbad => ?_⟩
  · exact (h.kept hok).imp (inLine_congr hregistered hpublished rfl)
      fun ⟨d, hd, hyet⟩ => ⟨d, hmem d hd, hyet⟩
  · rcases h.deferred hbad with hflagged | ⟨d, hd, hyet⟩ | ⟨d, hd, hyet⟩
    · exact .inl hflagged
    · exact .inr (.inl ⟨d, hmem d hd, hyet⟩)
    · exact .inr (.inr ⟨d, hmem d hd, hyet⟩)

/-- Each orderly step keeps tracks and senders accounted for. -/
theorem Sound.step {input : Input} (h : t.Sound) (horderly : t.Orderly input)
    (hstep : t.step input = some after) : after.Sound := by
  cases input with
  | call operation =>
    cases hstep
    exact ⟨h.owned.begin rfl, fun node peer p hreg hp => (h.accounted node peer p hreg hp).begin rfl rfl rfl⟩
  | newPeer node =>
    refine ⟨h.owned.newPeer hstep, fun other peer p hreg hp => ?_⟩
    cases hstep
    have hlt := (h.owned.registered other peer hreg).lt
    rw [List.getElem?_append_left hlt] at hp
    exact (h.accounted other peer p hreg hp).begin rfl rfl rfl
  | sweep node =>
    obtain ⟨peer, -, rfl⟩ := Option.map_eq_some_iff.mp hstep
    exact ⟨h.owned.begin rfl, fun node peer p hreg hp => (h.accounted node peer p hreg hp).begin rfl rfl rfl⟩
  | resume i order calls ok =>
    obtain ⟨phase, hi, hturn⟩ := Option.bind_eq_some_iff.mp hstep
    obtain ⟨⟨media, phase'⟩, htaken, rfl⟩ := Option.map_eq_some_iff.mp hturn
    have hturns := turn_cases htaken
    have hheeds := horderly phase hi
    exact ⟨h.owned.turn hi hheeds hturns, fun node peer p hreg hp =>
      hturns.accounted h.owned hi hheeds (h.accounted node peer) hreg hp⟩

/-- In a run whose every step is orderly the registered peers are accounted for. -/
theorem sound_of_run {moves : List (Move Media Input)} {s : Media} (run : Run step new moves s)
    (horderly : ∀ m ∈ moves, m.before.Orderly m.input) : s.Sound :=
  run.keepsUnder sound_new (fun _ _ _ h hcond hstep => h.step hcond hstep) horderly

/-- With no operation in progress a registered peer that is not flagged sends
exactly the published tracks that its node is in the audience of, if no step
synchronised a peer with other senders recorded for its node, or took the flag
off one whose synchronisation had failed. -/
theorem inLine_of_orderly {moves : List (Move Media Input)} {s : Media} (run : Run step new moves s)
    (horderly : ∀ m ∈ moves, m.before.Orderly m.input) (hquiet : s.Quiescent) {node : NodeId}
    {peer : PeerId} {p : Peer} (hreg : s.peers.get node = some peer)
    (hp : s.connections[peer]? = some p) (hflag : p.needsTrackReconcile = false) :
    s.InLine node p := by
  have hacc := (sound_of_run run horderly).accounted node peer p hreg hp
  have hsync : ¬ s.ToSync peer := fun ⟨phase, hmem, hyet⟩ => by
    rw [hquiet phase hmem] at hyet
    cases hyet
  have hyetFlag : ¬ s.ToFlag peer := fun ⟨phase, hmem, hyet⟩ => by
    rw [hquiet phase hmem] at hyet
    cases hyet
  cases hfailed : p.syncFailed with
  | false => exact (hacc.kept hfailed).resolve_right hsync
  | true =>
    rcases hacc.deferred hfailed with hflagged | hyet | hyet
    · rw [hflag] at hflagged
      cases hflagged
    · exact absurd hyet hsync
    · exact absurd hyet hyetFlag

end Media

/-! ## Two runs -/

section Runs

instance (t : Media) (node : NodeId) (peer : PeerId) : Decidable (t.Recorded node peer) :=
  decidable_of_iff (∀ p ∈ t.connections[peer]?, ∀ id ∈ (t.senders node).keys ++ p.senders.keys,
      (t.senders node).get id = (p.senders.get id).map fun _ => peer) <| by
    refine forall₂_congr fun p _ => ⟨fun h id => ?_, fun h id _ => h id⟩
    by_cases hid : id ∈ (t.senders node).keys ++ p.senders.keys
    · exact h id hid
    · rw [List.mem_append, Table.mem_keys_iff, Table.mem_keys_iff, not_or] at hid
      rw [Option.eq_none_iff_forall_ne_some.mpr fun owner h => hid.1 ⟨owner, h⟩,
        Option.eq_none_iff_forall_ne_some.mpr fun track h => hid.2 ⟨track, h⟩]
      rfl

instance (t : Media) (peer : PeerId) : Decidable (t.ToSync peer) :=
  inferInstanceAs (Decidable (∃ phase ∈ t.calls, _))

instance (t : Media) (peer : PeerId) : Decidable (t.ToFlag peer) :=
  inferInstanceAs (Decidable (∃ phase ∈ t.calls, _))

instance (t : Media) (phase : Phase) (ok : Bool) : Decidable (t.Heeds phase ok) :=
  decidable_of_iff ((∀ pair ∈ phase.syncs, t.Recorded pair.1 pair.2) ∧
      (ok = true → ∀ peer ∈ phase.offers, ∀ p ∈ t.connections[peer]?, p.syncFailed = true →
        t.ToSync peer ∨ t.ToFlag peer))
    ⟨fun ⟨hrecorded, hflag⟩ => ⟨fun node peer => hrecorded (node, peer), fun hok peer p hoffers hp =>
        hflag hok peer hoffers p hp⟩,
      fun h => ⟨fun pair => h.recorded pair.1 pair.2, fun hok peer hoffers p hp =>
        h.flag hok peer p hoffers hp⟩⟩

instance (t : Media) : DecidablePred t.Orderly
  | .resume i _ _ ok => inferInstanceAs (Decidable (∀ phase ∈ t.calls[i]?, t.Heeds phase ok))
  | .call _ | .newPeer _ | .sweep _ => isTrue trivial

def after (inputs : List Input) : List (Move Media Input) × Media := play Media.step .new inputs.reverse

/-- The first steps of a call, of which each may make the calls it needs. -/
def steps (call count : Nat) : List Input := List.replicate count (.resume call [] 9 true)

def alice : NodeId := ⟨"alice"⟩

/-- A node connects, and a track is published to it. -/
def published : List Input :=
  .newPeer alice :: steps 0 4 ++ .call (.publishLocalTrack "video" 7) :: steps 1 9

/-- The track is then for nobody, and a change goes through. -/
def withdrawn : List Input :=
  published ++ .call (.setLocalTrackAudience "video" (some [])) :: steps 2 9

/-- The removal of its sender fails, and the offer that follows does not. -/
def leaked : List Input :=
  published ++ .call (.setLocalTrackAudience "video" (some [])) :: steps 2 2 ++ .resume 2 [] 0 true ::
    steps 2 6

theorem withdrawn_inLine : ∃ p, (after withdrawn).2.peers.get alice = some 0 ∧
    (after withdrawn).2.connections[0]? = some p ∧ p.senders.get "video" = none ∧
    (after withdrawn).2.InLine alice p := by
  have horderly : ∀ m ∈ (after withdrawn).1, m.before.Orderly m.input := by decide +kernel
  have hquiet : (after withdrawn).2.Quiescent := by decide +kernel
  have hreg : (after withdrawn).2.peers.get alice = some 0 := by decide +kernel
  have hp : (after withdrawn).2.connections[0]? = some (⟨alice, ∅, false, none, false⟩ : Peer) := by
    decide +kernel
  exact ⟨_, hreg, hp, by decide +kernel, Media.inLine_of_orderly (run_play _ _ _) horderly hquiet hreg hp rfl⟩

/-- A peer outside the audience keeps getting the track, with no flag to say so. -/
theorem leaked_unnoticed : ∃ moves t, Run Media.step .new moves t ∧ t.Quiescent ∧
    t.peers.get alice = some 0 ∧ t.wanted alice "video" = none ∧
    ∃ p, t.connections[0]? = some p ∧ p.needsTrackReconcile = false ∧ p.senders.get "video" = some 7 ∧
      ¬ t.InLine alice p := by
  have hwanted : (after leaked).2.wanted alice "video" = none := by decide +kernel
  have hp : (after leaked).2.connections[0]? =
      some (⟨alice, Table.insert ∅ "video" 7, false, none, true⟩ : Peer) := by decide +kernel
  refine ⟨_, (after leaked).2, run_play _ _ _, by decide +kernel, by decide +kernel, hwanted, _, hp, rfl,
    by decide +kernel, fun h => ?_⟩
  have hsent := h "video"
  rw [hwanted] at hsent
  exact absurd hsent (by decide +kernel)

end Runs

end Mistlib.Transport.TrackAudience
