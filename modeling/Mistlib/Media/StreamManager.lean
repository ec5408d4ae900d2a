import Mathlib.Data.Finset.Basic
import Mistlib.Async.Reactive
import Mistlib.Data.Table

/-!
# The stream manager

Published tracks, their broadcasters and what has been forwarded to which viewer are three
tables. A viewer sees a track if the track's broadcaster has it registered; what is noted as
forwarded is not offered again.

The order in which tracks are forwarded is the environment's, as is what `add_track` answers.
What a broadcaster reads and sends is not here.
-/

namespace Mistlib.Media

open Reactive (Move Run play run_play)

/-- A remote track; `κ` is what a codec can do. -/
structure TrackRemote (κ : Type) where
  id : String
  streamId : String
  capability : κ
deriving DecidableEq, Repr

/-- The relay track made for one viewer. -/
structure TrackLocalStaticRtp (κ : Type) where
  capability : κ
  id : String
  streamId : String
deriving DecidableEq, Repr

structure TrackBroadcaster (κ : Type) where
  track : TrackRemote κ
  receivers : Table String (TrackLocalStaticRtp κ)

namespace TrackBroadcaster

variable {κ : Type}

def addReceiver (b : TrackBroadcaster κ) (id : String) (localTrack : TrackLocalStaticRtp κ) :
    TrackBroadcaster κ :=
  { b with receivers := b.receivers.insert id localTrack }

def removeReceiver (b : TrackBroadcaster κ) (id : String) : TrackBroadcaster κ :=
  { b with receivers := b.receivers.erase id }

end TrackBroadcaster

structure StreamManager (κ : Type) where
  obsTracks : Table String (TrackRemote κ)
  broadcasters : Table String (TrackBroadcaster κ)
  forwarded : Table String (Finset String)

namespace StreamManager

variable {κ : Type}

def new : StreamManager κ := ⟨∅, ∅, ∅⟩

def addObsTrack (m : StreamManager κ) (track : TrackRemote κ) : StreamManager κ :=
  if m.broadcasters.contains track.id then m
  else { m with
    broadcasters := m.broadcasters.insert track.id ⟨track, ∅⟩
    obsTracks := m.obsTracks.insert track.id track }

def removeObsTrack (m : StreamManager κ) (trackId : String) : StreamManager κ :=
  { m with
    obsTracks := m.obsTracks.erase trackId
    broadcasters := m.broadcasters.erase trackId }

def subscribeToTrack (m : StreamManager κ) (remoteTrack : TrackRemote κ)
    (localTrack : TrackLocalStaticRtp κ) (receiverId : String) : StreamManager κ :=
  match m.broadcasters.get remoteTrack.id with
  | some b => { m with
      broadcasters := m.broadcasters.insert remoteTrack.id (b.addReceiver receiverId localTrack) }
  | none => m

def forwardedTo (m : StreamManager κ) (receiverId : String) : Finset String :=
  (m.forwarded.get receiverId).getD ∅

/-- `added` is what `add_track` answers. -/
def forwardTrackToReceiver (m : StreamManager κ) (track : TrackRemote κ) (receiverId : String)
    (added : Bool) : StreamManager κ :=
  if added then
    let localTrack : TrackLocalStaticRtp κ := ⟨track.capability, track.id, track.streamId⟩
    let m := m.subscribeToTrack track localTrack receiverId
    { m with forwarded := m.forwarded.insert receiverId (insert track.id (m.forwardedTo receiverId)) }
  else m

/-- What is not yet forwarded to a receiver. -/
def toAdd (m : StreamManager κ) (receiverId : String) : List (TrackRemote κ) :=
  m.obsTracks.values.filter fun t => t.id ∉ m.forwardedTo receiverId

/-- `order` has the tracks to add in the order of the hash map, each with what `add_track` answers.
The result has the ids that were added. -/
def forwardObsTracksToReceiver (m : StreamManager κ) (receiverId : String)
    (order : List (TrackRemote κ × Bool)) : StreamManager κ × List String :=
  (order.foldl (fun m e => m.forwardTrackToReceiver e.1 receiverId e.2) m,
    (order.filter Prod.snd).map fun e => e.1.id)

def removeReceiver (m : StreamManager κ) (receiverId : String) : StreamManager κ :=
  { m with
    forwarded := m.forwarded.erase receiverId
    broadcasters := m.broadcasters.mapVals fun _ b => b.removeReceiver receiverId }

inductive Call (κ : Type) where
  | addObsTrack (track : TrackRemote κ)
  | removeObsTrack (trackId : String)
  | forwardTrackToReceiver (track : TrackRemote κ) (receiverId : String) (added : Bool)
  | forwardObsTracksToReceiver (receiverId : String) (order : List (TrackRemote κ × Bool))
  | removeReceiver (receiverId : String)
deriving DecidableEq, Repr

def step [DecidableEq κ] (m : StreamManager κ) : Call κ → Option (StreamManager κ)
  | .addObsTrack track => some (m.addObsTrack track)
  | .removeObsTrack trackId => some (m.removeObsTrack trackId)
  | .forwardTrackToReceiver track receiverId added =>
    some (m.forwardTrackToReceiver track receiverId added)
  | .forwardObsTracksToReceiver receiverId order =>
    if (order.map Prod.fst).Perm (m.toAdd receiverId) then
      some (m.forwardObsTracksToReceiver receiverId order).1
    else none
  | .removeReceiver receiverId => some (m.removeReceiver receiverId)

/-! ## What is promised -/

/-- The receiver is registered at the track's current broadcaster. -/
def Registered (m : StreamManager κ) (trackId receiverId : String) : Prop :=
  ∃ b, m.broadcasters.get trackId = some b ∧ b.receivers.contains receiverId

/-- What is noted as forwarded is registered. -/
def Noted (m : StreamManager κ) : Prop :=
  ∀ receiverId, ∀ trackId ∈ m.forwardedTo receiverId, m.Registered trackId receiverId

/-- What holds after a call. -/
structure Served (call : Call κ) (m : StreamManager κ) : Prop where
  keys : ∀ trackId, m.obsTracks.contains trackId = m.broadcasters.contains trackId
  noted : m.Noted
  forwarded : ∀ receiverId order, call = .forwardObsTracksToReceiver receiverId order →
    (∀ e ∈ order, e.2 = true) → ∀ trackId, m.obsTracks.contains trackId → m.Registered trackId receiverId
  removed : ∀ receiverId, call = .removeReceiver receiverId → ∀ trackId, ¬ m.Registered trackId receiverId

/-- The condition under which a call leaves the notes true: a track that is removed is noted for
nobody, and a track that is forwarded by itself is published. -/
def Tidy (m : StreamManager κ) : Call κ → Prop
  | .removeObsTrack trackId => ∀ trackIds ∈ m.forwarded.values, trackId ∉ trackIds
  | .forwardTrackToReceiver track _ added => added = true → m.broadcasters.contains track.id
  | _ => True

instance (m : StreamManager κ) : DecidablePred m.Tidy
  | .removeObsTrack trackId =>
    inferInstanceAs (Decidable (∀ trackIds ∈ m.forwarded.values, trackId ∉ trackIds))
  | .forwardTrackToReceiver track _ added =>
    inferInstanceAs (Decidable (added = true → m.broadcasters.contains track.id = true))
  | .addObsTrack _ | .forwardObsTracksToReceiver _ _ | .removeReceiver _ => isTrue trivial

/-! ## The calls -/

variable {m : StreamManager κ}

theorem mem_forwardedTo {trackId receiverId : String} :
    trackId ∈ m.forwardedTo receiverId ↔ ∃ trackIds, m.forwarded.get receiverId = some trackIds ∧ trackId ∈ trackIds := by
  rw [forwardedTo]
  cases m.forwarded.get receiverId <;> simp

/-- Published tracks have a broadcaster and are listed under their own id. -/
structure Listed (m : StreamManager κ) : Prop where
  keys : ∀ trackId, m.obsTracks.contains trackId = m.broadcasters.contains trackId
  named : ∀ {trackId track}, m.obsTracks.get trackId = some track → track.id = trackId

theorem contains_subscribeToTrack (track : TrackRemote κ) (localTrack : TrackLocalStaticRtp κ)
    (receiverId trackId : String) :
    (m.subscribeToTrack track localTrack receiverId).broadcasters.contains trackId =
      m.broadcasters.contains trackId := by
  rw [subscribeToTrack]
  cases hb : m.broadcasters.get track.id with
  | none => rfl
  | some b =>
    simp only [Table.contains, Table.get_insert]
    split
    · next h => rw [h, hb, Option.isSome_some, Option.isSome_some]
    · rfl

theorem registered_subscribeToTrack (track : TrackRemote κ) (localTrack : TrackLocalStaticRtp κ)
    (receiverId : String) {trackId other : String} :
    (m.subscribeToTrack track localTrack receiverId).Registered trackId other ↔
      m.Registered trackId other ∨
        trackId = track.id ∧ other = receiverId ∧ m.broadcasters.contains track.id := by
  rw [subscribeToTrack]
  cases hb : m.broadcasters.get track.id with
  | none => simp [Registered, Table.contains, hb]
  | some b =>
    simp only [Registered, Table.get_insert, Table.contains, hb]
    by_cases htrack : trackId = track.id
    · subst htrack
      simp only [hb, TrackBroadcaster.addReceiver]
      by_cases hother : other = receiverId <;> simp [hother, Table.get_insert]
    · simp [htrack]

/-- Tracks are forwarded to a receiver: all are noted, those with a broadcaster are registered. -/
structure Forwards (m m' : StreamManager κ) (receiverId : String) (ids : List String) : Prop where
  obsTracks : m'.obsTracks = m.obsTracks
  contains : ∀ trackId, m'.broadcasters.contains trackId = m.broadcasters.contains trackId
  registered : ∀ trackId other, m'.Registered trackId other ↔
    m.Registered trackId other ∨ other = receiverId ∧ trackId ∈ ids ∧ m.broadcasters.contains trackId
  forwardedTo : ∀ trackId other, trackId ∈ m'.forwardedTo other ↔
    trackId ∈ m.forwardedTo other ∨ other = receiverId ∧ trackId ∈ ids

namespace Forwards

variable {m' m'' : StreamManager κ} {receiverId : String} {ids ids' : List String}

theorem nil : Forwards m m receiverId [] where
  obsTracks := rfl
  contains _ := rfl
  registered := by simp
  forwardedTo := by simp

theorem append (h : Forwards m m' receiverId ids) (h' : Forwards m' m'' receiverId ids') :
    Forwards m m'' receiverId (ids ++ ids') where
  obsTracks := h'.obsTracks.trans h.obsTracks
  contains trackId := (h'.contains trackId).trans (h.contains trackId)
  registered trackId other := by
    rw [h'.registered, h.registered, h.contains, List.mem_append]
    tauto
  forwardedTo trackId other := by
    rw [h'.forwardedTo, h.forwardedTo, List.mem_append]
    tauto

theorem listed (h : Forwards m m' receiverId ids) (hlisted : m.Listed) : m'.Listed where
  keys trackId := by rw [h.obsTracks, h.contains, hlisted.keys]
  named := by
    rw [h.obsTracks]
    exact hlisted.named

theorem noted_iff (h : Forwards m m' receiverId ids) (hnoted : m.Noted) :
    m'.Noted ↔ ∀ trackId ∈ ids, m.broadcasters.contains trackId := by
  constructor
  · intro hnoted' trackId hids
    obtain ⟨b, hb, -⟩ := hnoted' receiverId trackId ((h.forwardedTo _ _).mpr (.inr ⟨rfl, hids⟩))
    rw [← h.contains]
    exact Table.contains_iff.mpr ⟨b, hb⟩
  · intro hall other trackId hmem
    rw [h.registered]
    rcases (h.forwardedTo _ _).mp hmem with hold | ⟨hother, hids⟩
    · exact .inl (hnoted other trackId hold)
    · exact .inr ⟨hother, hids, hall trackId hids⟩

end Forwards

theorem forwards_track (track : TrackRemote κ) (receiverId : String) (added : Bool) :
    Forwards m (m.forwardTrackToReceiver track receiverId added) receiverId (if added then [track.id] else []) := by
  cases added with
  | false => exact .nil
  | true =>
    let localTrack : TrackLocalStaticRtp κ := ⟨track.capability, track.id, track.streamId⟩
    have hsame : (m.subscribeToTrack track localTrack receiverId).obsTracks = m.obsTracks ∧
        (m.subscribeToTrack track localTrack receiverId).forwarded = m.forwarded := by
      rw [subscribeToTrack]
      split <;> exact ⟨rfl, rfl⟩
    have hto : ∀ other, (m.subscribeToTrack track localTrack receiverId).forwardedTo other = m.forwardedTo other := by
      intro other
      rw [StreamManager.forwardedTo, hsame.2]
      rfl
    refine ⟨hsame.1, contains_subscribeToTrack track localTrack receiverId, fun trackId other => ?_,
      fun trackId other => ?_⟩
    · show (m.subscribeToTrack track localTrack receiverId).Registered trackId other ↔ _
      rw [registered_subscribeToTrack]
      refine or_congr_right ⟨?_, ?_⟩
      · rintro ⟨rfl, rfl, h⟩
        exact ⟨rfl, List.mem_singleton_self _, h⟩
      · rintro ⟨rfl, hid, h⟩
        obtain rfl := List.mem_singleton.mp hid
        exact ⟨rfl, rfl, h⟩
    · show trackId ∈ (Option.getD (Table.get (Table.insert _ receiverId _) other) ∅) ↔ _
      rw [Table.get_insert, hto, hsame.2]
      by_cases h : other = receiverId
      · subst h
        simp [or_comm]
      · simp [h, StreamManager.forwardedTo]

theorem forwards_order (receiverId : String) (order : List (TrackRemote κ × Bool)) :
    Forwards m (m.forwardObsTracksToReceiver receiverId order).1 receiverId
      (m.forwardObsTracksToReceiver receiverId order).2 := by
  simp only [forwardObsTracksToReceiver]
  induction order generalizing m with
  | nil => exact .nil
  | cons e order ih =>
    obtain ⟨track, added⟩ := e
    have h := (forwards_track track receiverId added).append (@ih (m.forwardTrackToReceiver track receiverId added))
    cases added <;> exact h

theorem registered_removeReceiver {receiverId trackId other : String} :
    (m.removeReceiver receiverId).Registered trackId other ↔ m.Registered trackId other ∧ other ≠ receiverId := by
  simp only [Registered, removeReceiver, Table.get_mapVals, Option.map_eq_some_iff]
  constructor
  · rintro ⟨_, ⟨b, hb, rfl⟩, hother⟩
    rw [TrackBroadcaster.removeReceiver, Table.contains, Table.get_erase] at hother
    split at hother
    · cases hother
    · next hne => exact ⟨⟨b, hb, hother⟩, hne⟩
  · rintro ⟨⟨b, hb, hother⟩, hne⟩
    refine ⟨_, ⟨b, hb, rfl⟩, ?_⟩
    rw [TrackBroadcaster.removeReceiver, Table.contains, Table.get_erase, if_neg hne]
    exact hother

theorem contains_of_order (hlisted : m.Listed) {receiverId : String} {order : List (TrackRemote κ × Bool)}
    (horder : (order.map Prod.fst).Perm (m.toAdd receiverId)) {trackId : String}
    (hmem : trackId ∈ (m.forwardObsTracksToReceiver receiverId order).2) : m.broadcasters.contains trackId := by
  obtain ⟨e, he, rfl⟩ := List.mem_map.mp hmem
  have htoAdd : e.1 ∈ m.toAdd receiverId :=
    horder.subset (List.mem_map_of_mem (List.mem_of_mem_filter he))
  obtain ⟨trackId, htrack⟩ := Table.mem_values_iff.mp (List.mem_of_mem_filter htoAdd)
  rw [hlisted.named htrack, ← hlisted.keys]
  exact Table.contains_iff.mpr ⟨_, htrack⟩

/-! ## Runs -/

variable [DecidableEq κ] {m' : StreamManager κ} {call : Call κ}

/-- Each call keeps published tracks listed under their own ids. -/
theorem Listed.step (h : m.Listed) (hstep : m.step call = some m') : m'.Listed := by
  cases call with
  | addObsTrack track =>
    cases hstep
    rw [addObsTrack]
    split
    · exact h
    · refine ⟨fun trackId => ?_, fun {trackId t} ht => ?_⟩
      · have hkeys := h.keys trackId
        simp only [Table.contains, Table.get_insert] at hkeys ⊢
        split
        · rfl
        · exact hkeys
      · rw [Table.get_insert] at ht
        split at ht
        · next heq =>
          cases ht
          exact heq.symm
        · exact h.named ht
  | removeObsTrack id =>
    cases hstep
    refine ⟨fun trackId => ?_, fun {trackId t} ht => ?_⟩
    · have hkeys := h.keys trackId
      simp only [removeObsTrack, Table.contains, Table.get_erase] at hkeys ⊢
      split
      · rfl
      · exact hkeys
    · rw [removeObsTrack, Table.get_erase] at ht
      split at ht
      · cases ht
      · exact h.named ht
  | forwardTrackToReceiver track receiverId added =>
    cases hstep
    exact (forwards_track track receiverId added).listed h
  | forwardObsTracksToReceiver receiverId order =>
    obtain ⟨-, hstep⟩ := Option.ite_none_right_eq_some.mp hstep
    cases hstep
    exact (forwards_order receiverId order).listed h
  | removeReceiver receiverId =>
    cases hstep
    refine ⟨fun trackId => ?_, h.named⟩
    rw [removeReceiver, h.keys, Table.contains, Table.contains, Table.get_mapVals, Option.isSome_map]

/-- A call keeps the promises exactly if it is tidy. -/
theorem served_iff (hlisted : m.Listed) (hnoted : m.Noted) (hstep : m.step call = some m') :
    Served call m' ↔ m.Tidy call := by
  have hkeys := (hlisted.step hstep).keys
  cases call with
  | addObsTrack track =>
    refine iff_of_true ⟨hkeys, fun receiverId trackId hmem => ?_, nofun, nofun⟩ trivial
    cases hstep
    by_cases hpublished : m.broadcasters.contains track.id
    · rw [addObsTrack, if_pos hpublished] at hmem ⊢
      exact hnoted receiverId trackId hmem
    · rw [addObsTrack, if_neg hpublished] at hmem ⊢
      obtain ⟨b, hb, hreceiver⟩ := hnoted receiverId trackId hmem
      refine ⟨b, ?_, hreceiver⟩
      rw [Table.get_insert, if_neg, hb]
      rintro rfl
      exact hpublished (Table.contains_iff.mpr ⟨b, hb⟩)
  | removeObsTrack id =>
    cases hstep
    constructor
    · intro h trackIds hids hmem
      obtain ⟨receiverId, hget⟩ := Table.mem_values_iff.mp hids
      obtain ⟨b, hb, -⟩ := h.noted receiverId id (mem_forwardedTo.mpr ⟨trackIds, hget, hmem⟩)
      rw [removeObsTrack, Table.get_erase, if_pos rfl] at hb
      cases hb
    · intro htidy
      refine ⟨hkeys, fun receiverId trackId hmem => ?_, nofun, nofun⟩
      obtain ⟨b, hb, hreceiver⟩ := hnoted receiverId trackId hmem
      refine ⟨b, ?_, hreceiver⟩
      rw [removeObsTrack, Table.get_erase, if_neg, hb]
      rintro rfl
      obtain ⟨trackIds, hget, hids⟩ := mem_forwardedTo.mp hmem
      exact htidy trackIds (Table.mem_values_iff.mpr ⟨receiverId, hget⟩) hids
  | forwardTrackToReceiver track receiverId added =>
    cases hstep
    have hiff := (forwards_track track receiverId added).noted_iff hnoted
    have hserved : Served (.forwardTrackToReceiver track receiverId added)
        (m.forwardTrackToReceiver track receiverId added) ↔ _ :=
      ⟨Served.noted, fun h => ⟨hkeys, h, nofun, nofun⟩⟩
    rw [hserved, hiff]
    cases added <;> simp [Tidy]
  | forwardObsTracksToReceiver receiverId order =>
    obtain ⟨horder, hstep⟩ := Option.ite_none_right_eq_some.mp hstep
    cases hstep
    have h := forwards_order (m := m) receiverId order
    have hpublished := fun trackId (hmem : trackId ∈ (m.forwardObsTracksToReceiver receiverId order).2) =>
      contains_of_order hlisted horder hmem
    refine iff_of_true ⟨hkeys, (h.noted_iff hnoted).mpr hpublished, ?_, nofun⟩ trivial
    intro _ _ hcall hadded trackId htrack
    cases hcall
    rw [h.obsTracks] at htrack
    obtain ⟨track, htrack⟩ := Table.contains_iff.mp htrack
    obtain rfl := hlisted.named htrack
    rw [h.registered]
    by_cases hnew : track.id ∈ m.forwardedTo receiverId
    · exact .inl (hnoted receiverId track.id hnew)
    · have htoAdd : track ∈ m.toAdd receiverId :=
        List.mem_filter.mpr ⟨Table.mem_values_iff.mpr ⟨_, htrack⟩, decide_eq_true hnew⟩
      obtain ⟨e, he, rfl⟩ := List.mem_map.mp (horder.symm.subset htoAdd)
      have hids : e.1.id ∈ (m.forwardObsTracksToReceiver receiverId order).2 :=
        List.mem_map_of_mem (List.mem_filter.mpr ⟨he, hadded e he⟩)
      exact .inr ⟨rfl, hids, hpublished _ hids⟩
  | removeReceiver receiverId =>
    cases hstep
    refine iff_of_true ⟨hkeys, fun other trackId hmem => ?_, nofun, ?_⟩ trivial
    · rw [forwardedTo, removeReceiver, Table.get_erase] at hmem
      split at hmem
      · cases hmem
      · next hne => exact registered_removeReceiver.mpr ⟨hnoted other trackId hmem, hne⟩
    · intro _ hcall trackId h
      cases hcall
      exact (registered_removeReceiver.mp h).2 rfl

theorem listed_of_run {moves : List (Move (StreamManager κ) (Call κ))} (run : Run step new moves m) : m.Listed :=
  run.keeps (P := fun _ m => m.Listed) ⟨fun _ => rfl, nofun⟩ fun _ _ _ _ h hstep => h.step hstep

/-- A call of a run leaves every viewer with every track. -/
def Kept (move : Move (StreamManager κ) (Call κ)) : Prop :=
  ∀ after, move.before.step move.input = some after → Served move.input after

/-- While no viewer loses a track, what is noted as forwarded is registered. -/
theorem noted_of_kept {moves : List (Move (StreamManager κ) (Call κ))} (run : Run step new moves m)
    (hkept : ∀ move ∈ moves, Kept move) : m.Noted := by
  cases run with
  | nil => exact nofun
  | snoc _ hstep => exact (hkept _ List.mem_cons_self _ hstep).noted

/-- A run leaves every viewer with every track after each of its calls exactly if all calls are
tidy. -/
theorem kept_iff {moves : List (Move (StreamManager κ) (Call κ))} (run : Run step new moves m) :
    (∀ move ∈ moves, Kept move) ↔ ∀ move ∈ moves, move.before.Tidy move.input := by
  induction run with
  | nil => simp
  | snoc run hstep ih =>
    have hlisted := listed_of_run run
    simp only [List.forall_mem_cons]
    constructor
    · rintro ⟨hlatest, hrest⟩
      exact ⟨(served_iff hlisted (noted_of_kept run hrest) hstep).mp (hlatest _ hstep), ih.mp hrest⟩
    · rintro ⟨hlatest, htidy⟩
      have hrest := ih.mpr htidy
      exact ⟨fun after hafter => (served_iff hlisted (noted_of_kept run hrest) hafter).mpr hlatest, hrest⟩

def camera : TrackRemote Unit := ⟨"camera", "obs", ()⟩

/-- The viewer leaves before the track is withdrawn and comes back after it is published again. -/
def rejoined : List (Call Unit) :=
  [.addObsTrack camera, .forwardObsTracksToReceiver "viewer" [(camera, true)], .removeReceiver "viewer",
    .removeObsTrack "camera", .addObsTrack camera, .forwardObsTracksToReceiver "viewer" [(camera, true)]]

theorem rejoined_kept : (play step new rejoined.reverse).1.Forall Kept :=
  List.forall_iff_forall_mem.mpr ((kept_iff (run_play _ _ _)).mpr (by decide +kernel))

/-- The viewer stays while the track is withdrawn and published again. -/
def republished : StreamManager Unit :=
  (play step new [.addObsTrack camera, .removeObsTrack "camera",
    .forwardObsTracksToReceiver "viewer" [(camera, true)], .addObsTrack camera]).2

/-- It then gets nothing, though no `add_track` fails. -/
theorem republished_black : ¬ ∀ (moves : List (Move (StreamManager Unit) (Call Unit))) (m : StreamManager Unit),
    Run step new moves m → ∀ move ∈ moves, Kept move := by
  intro h
  have horder : ([] : List (TrackRemote Unit)).Perm (republished.toAdd "viewer") := by decide +kernel
  have hstep : republished.step (.forwardObsTracksToReceiver "viewer" []) = some republished := by
    rw [step]
    exact if_pos horder
  have hserved := h _ _ ((run_play _ _ _).snoc hstep) _ List.mem_cons_self _ hstep
  obtain ⟨b, hb, hviewer⟩ := hserved.forwarded "viewer" [] rfl nofun "camera" (by decide +kernel)
  have hnot : ∀ b ∈ republished.broadcasters.get "camera", b.receivers.contains "viewer" = false := by
    decide +kernel
  rw [hnot b hb] at hviewer
  cases hviewer

end StreamManager

end Mistlib.Media
