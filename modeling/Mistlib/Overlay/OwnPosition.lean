import Mistlib.Async.Reactive
import Mistlib.Overlay.Exchanger

/-!
# The node's own position

The node store keeps the node's own position among those of the others, and what
expires the others expires it too. An idle node refreshes it by nothing but its own
frames that come back, so each expiry of a run is compared with the time since then.

What was last set is kept beside the store; no step reads it.
-/

namespace Mistlib.Overlay

namespace NodeStore

variable (store : NodeStore)

def touchNode (id : NodeId) (now : Instant) : Bool × NodeStore :=
  if store.nodes.contains id then (true, { store with lastUpdated := store.lastUpdated.insert id now })
  else (false, store)

/-- The first loop of `step_aoi`. -/
def touchAll (ids : List NodeId) (now : Instant) : NodeStore :=
  ids.foldl (fun store id => (store.touchNode id now).2) store

/-- `ensure_node_registered`: at the origin, if the node is not known. -/
def ensureNodeRegistered (id : NodeId) (now : Instant) : NodeStore :=
  if id.isServer ∨ store.nodes.contains id then store else store.updateNodePosition id Position.zero now

def getNodesInRange (centerId : NodeId) (range : Float32) : List NodeId :=
  match store.nodes.get centerId with
  | none => []
  | some center =>
    (store.nodes.entries.filter fun node =>
      decide (node.1 ≠ centerId) &&
        decide (Float32.sqrt ((node.2 - center).dot (node.2 - center)) ≤ range)).map (·.1)

end NodeStore

structure SelectionInput where
  selfPos : Position
  knownNodes : List (NodeId × Position)

def NodeStore.selectionInput (store : NodeStore) (self : NodeId) : SelectionInput where
  selfPos := (store.nodes.get self).getD Position.zero
  knownNodes := (store.nodes.entries.filter fun node => decide (node.1 ≠ self)).map fun node => (node.1, node.2)

/-- The store and the area of interest of an engine, and the position last set. -/
structure EngineStore where
  nodeStore : NodeStore
  aoiNodes : List NodeId
  lastSet : Option Position

/-- What reads or writes the store of a running engine. A heartbeat, a position and
a request for a node list each say where their source is. -/
inductive StoreEvent where
  | updatePosition (position : Position) (now : Instant)
  /-- A frame arrived over the link of a node, or with it as its source. -/
  | touch (id : NodeId) (now : Instant)
  | position (source : NodeId) (position : Position) (now : Instant)
  | nodeList (source : NodeId) (nodes : List (NodeId × Position)) (now : Instant)
  | register (sender : NodeId) (now : Instant)
  | engineTick (connected : List NodeId) (aoiRange : Float32) (expire : Duration) (touchedAt now : Instant)
  | overlayTick (expire : Duration) (now : Instant)

namespace EngineStore

def new : EngineStore := ⟨.new, [], none⟩

def step (self : NodeId) (s : EngineStore) : StoreEvent → Option EngineStore
  | .updatePosition position now =>
    some { s with nodeStore := s.nodeStore.updateNodePosition self position now, lastSet := some position }
  | .touch id now =>
    some (if id.isServer then s else { s with nodeStore := (s.nodeStore.touchNode id now).2 })
  | .position source position now =>
    -- `mark_seen` takes nothing in the node's own name.
    some (if source = self then s
      else { s with nodeStore := s.nodeStore.updateNodePosition source position now })
  | .nodeList source nodes now =>
    some (if source = self then s else { s with nodeStore := s.nodeStore.applyNodeList self nodes now })
  | .register sender now => some { s with nodeStore := s.nodeStore.ensureNodeRegistered sender now }
  | .engineTick connected aoiRange expire touchedAt now =>
    let store := (s.nodeStore.touchAll connected touchedAt).retainRecent expire now
    some { s with nodeStore := store, aoiNodes := store.getNodesInRange self aoiRange }
  | .overlayTick expire now => some { s with nodeStore := s.nodeStore.retainRecent expire now }

/-- The store holds the position that was last set. -/
def Remembers (self : NodeId) (s : EngineStore) : Prop :=
  ∀ position, s.lastSet = some position → s.nodeStore.nodes.get self = some position

end EngineStore

/-- The entry of a node is younger than `expire`. -/
def NodeStore.Recent (store : NodeStore) (id : NodeId) (expire : Duration) (now : Instant) : Prop :=
  ∀ last, store.lastUpdated.get id = some last → now - last < expire

theorem NodeStore.recent_iff {store : NodeStore} {id : NodeId} {expire : Duration} {now : Instant} :
    store.Recent id expire now ↔
      (store.lastUpdated.get id).all (fun last => decide (now - last < expire)) = true := by
  unfold Recent
  cases store.lastUpdated.get id with
  | none | some last => simp

instance (store : NodeStore) (id : NodeId) (expire : Duration) (now : Instant) :
    Decidable (store.Recent id expire now) :=
  decidable_of_iff _ NodeStore.recent_iff.symm

/-- An expiry after a position was set finds the own entry recent. -/
def StoreEvent.Timely (self : NodeId) (s : EngineStore) : StoreEvent → Prop
  | .engineTick connected _ expire touchedAt now => s.lastSet.isSome = true →
      (s.nodeStore.touchAll connected touchedAt).Recent self expire now
  | .overlayTick expire now => s.lastSet.isSome = true → s.nodeStore.Recent self expire now
  | _ => True

instance (self : NodeId) (s : EngineStore) : (event : StoreEvent) → Decidable (event.Timely self s)
  | .engineTick connected _ expire touchedAt now => inferInstanceAs (Decidable (s.lastSet.isSome = true →
      (s.nodeStore.touchAll connected touchedAt).Recent self expire now))
  | .overlayTick expire now => inferInstanceAs (Decidable (s.lastSet.isSome = true →
      s.nodeStore.Recent self expire now))
  | .updatePosition .. | .touch .. | .position .. | .nodeList ..
  | .register .. => inferInstanceAs (Decidable True)

/-! ## What a step does to the own entry -/

namespace NodeStore

variable {store : NodeStore} {id self : NodeId} {position : Position} {now : Instant}

@[simp] theorem nodes_touchNode : (store.touchNode id now).2.nodes = store.nodes := by
  unfold touchNode
  split
  · rfl
  · rfl

@[simp] theorem nodes_touchAll (ids : List NodeId) : (store.touchAll ids now).nodes = store.nodes := by
  unfold touchAll
  induction ids generalizing store with
  | nil => rfl
  | cons id rest ih => rw [List.foldl_cons, ih, nodes_touchNode]

theorem get_updateNodePosition (h : self ≠ id) :
    (store.updateNodePosition id position now).nodes.get self = store.nodes.get self := by
  show (store.nodes.insert id position).get self = _
  rw [Table.get_insert, if_neg h]

theorem get_applyNodeList (nodes : List (NodeId × Position)) :
    (store.applyNodeList self nodes now).nodes.get self = store.nodes.get self := by
  unfold applyNodeList
  induction nodes.take MAX_NODE_LIST_NODES generalizing store with
  | nil => rfl
  | cons node rest ih =>
    rw [List.foldl_cons, ih]
    split
    · rfl
    · next hskip => exact get_updateNodePosition fun heq => hskip (.inl heq.symm)

theorem get_ensureNodeRegistered (h : store.nodes.contains self = true) (sender : NodeId) :
    (store.ensureNodeRegistered sender now).nodes.get self = store.nodes.get self := by
  unfold ensureNodeRegistered
  split
  · rfl
  · next hunknown =>
    refine get_updateNodePosition ?_
    rintro rfl
    exact hunknown (.inr h)

theorem get_retainRecent (h : store.nodes.get self = some position) (expire : Duration) :
    (store.retainRecent expire now).nodes.get self = some position ↔ store.Recent self expire now := by
  show (store.nodes.retain _).get self = some position ↔ _
  rw [Table.get_retain, h, Option.filter_some, recent_iff]
  simp

end NodeStore

namespace EngineStore

variable {self : NodeId} {s s' : EngineStore}

theorem remembers_congr (h : s.Remembers self) (hset : s'.lastSet = s.lastSet)
    (hget : s.lastSet.isSome = true → s'.nodeStore.nodes.get self = s.nodeStore.nodes.get self) :
    s'.Remembers self := by
  intro position hposition
  rw [hset] at hposition
  rw [hget (by rw [hposition]; rfl)]
  exact h position hposition

theorem remembers_retainRecent (h : s.Remembers self) {store : NodeStore}
    (hstore : store.nodes = s.nodeStore.nodes) {aoiNodes : List NodeId} {expire : Duration} {now : Instant} :
    EngineStore.Remembers self ⟨store.retainRecent expire now, aoiNodes, s.lastSet⟩ ↔
      (s.lastSet.isSome = true → store.Recent self expire now) := by
  unfold Remembers
  cases hset : s.lastSet with
  | none => simp
  | some position =>
    have hget : store.nodes.get self = some position := by
      rw [hstore]
      exact h position hset
    rw [← NodeStore.get_retainRecent hget]
    simp

/-- A step keeps the position remembered exactly if its event is timely. -/
theorem remembers_step (h : s.Remembers self) {event : StoreEvent} (hstep : s.step self event = some s') :
    s'.Remembers self ↔ event.Timely self s := by
  cases event with
  | updatePosition position now =>
    cases hstep
    refine iff_of_true ?_ trivial
    intro position' hset
    cases Option.some.inj hset
    exact Table.get_insert_self ..
  | touch id now =>
    cases hstep
    refine iff_of_true ?_ trivial
    split
    · exact h
    · exact remembers_congr h rfl fun _ => by rw [NodeStore.nodes_touchNode]
  | position source position now =>
    cases hstep
    refine iff_of_true ?_ trivial
    split
    · exact h
    · next hforeign =>
      exact remembers_congr h rfl fun _ => NodeStore.get_updateNodePosition (Ne.symm hforeign)
  | nodeList source nodes now =>
    cases hstep
    refine iff_of_true ?_ trivial
    split
    · exact h
    · exact remembers_congr h rfl fun _ => NodeStore.get_applyNodeList nodes
  | register sender now =>
    cases hstep
    refine iff_of_true (remembers_congr h rfl fun hset => ?_) trivial
    obtain ⟨position, hposition⟩ := Option.isSome_iff_exists.mp hset
    exact NodeStore.get_ensureNodeRegistered (Table.contains_iff.mpr ⟨position, h position hposition⟩) sender
  | engineTick connected aoiRange expire touchedAt now =>
    cases hstep
    exact remembers_retainRecent h (NodeStore.nodes_touchAll connected)
  | overlayTick expire now =>
    cases hstep
    exact remembers_retainRecent h rfl

end EngineStore

open Reactive in
/-- In every run the store holds the position last set throughout exactly if it did
at the start and every expiry is timely. -/
theorem remembers_throughout_iff {self : NodeId} {start s : EngineStore}
    {moves : List (Move EngineStore StoreEvent)} (run : Run (EngineStore.step self) start moves s) :
    (s.Remembers self ∧ ∀ m ∈ moves, m.before.Remembers self) ↔
      start.Remembers self ∧ ∀ m ∈ moves, m.input.Timely self m.before :=
  run.throughout_iff (I := fun _ => True) (P := EngineStore.Remembers self)
    (C := fun s event => event.Timely self s) trivial (fun _ _ _ _ _ => trivial)
    fun _ _ _ _ h hstep => EngineStore.remembers_step h hstep

/-! ### A node that moves, and one that stands still -/

namespace Idle

def self : NodeId := ⟨"a"⟩
def peer : NodeId := ⟨"b"⟩
def place : Position := ⟨3.0, 0.0, 4.0⟩

def after (events : List StoreEvent) : List (Reactive.Move EngineStore StoreEvent) × EngineStore :=
  Reactive.play (EngineStore.step self) .new events

/-- The position is set again within the ten seconds. -/
def moving : List StoreEvent :=
  [.overlayTick (.fromSecs 10) 15000000000, .updatePosition place 9000000000,
    .engineTick [peer] 100.0 (.fromSecs 10) 8000000000 8000000000, .position peer place 2000000000,
    .updatePosition Position.zero 1000000000]

/-- The peer is heard of all the time; the node itself does not move. -/
def standing : List StoreEvent :=
  [.engineTick [peer] 100.0 (.fromSecs 10) 11000000000 11000000000, .position peer place 10000000000,
    .updatePosition place 1000000000]

end Idle

open Idle in
theorem remembers_moving :
    (after moving).2.Remembers self ∧ ∀ m ∈ (after moving).1, m.before.Remembers self :=
  (remembers_throughout_iff (Reactive.run_play _ _ moving)).mpr ⟨nofun, by decide +kernel⟩

open Reactive in
/-- As long as every expiry is timely, who asks where the node is gets the position last set: the
selection of connections, the heartbeats, and the area of interest, which is then centred there. -/
theorem reads_last_set {self : NodeId} {s : EngineStore} {moves : List (Move EngineStore StoreEvent)}
    (run : Run (EngineStore.step self) .new moves s) (htimely : ∀ m ∈ moves, m.input.Timely self m.before)
    {position : Position} (hset : s.lastSet = some position) {x : DNVE3Exchanger}
    (hself : x.localNodeId = self) (range : Float32) :
    (s.nodeStore.selectionInput self).selfPos = position ∧ x.selfPosition s.nodeStore = position ∧
      s.nodeStore.getNodesInRange self range =
        (s.nodeStore.nodes.entries.filter fun node => decide (node.1 ≠ self) &&
          decide (Float32.sqrt ((node.2 - position).dot (node.2 - position)) ≤ range)).map (·.1) := by
  have hkept : s.Remembers self := by
    refine run.keepsUnder (P := EngineStore.Remembers self) (C := fun s event => event.Timely self s)
      (fun _ hnone => ?_) ?_ htimely
    · cases hnone
    · intro s event s' h hevent hstep
      exact (EngineStore.remembers_step h hstep).mpr hevent
  have hget := hkept position hset
  subst hself
  refine ⟨?_, ?_, ?_⟩
  · rw [NodeStore.selectionInput, hget, Option.getD_some]
  · rw [DNVE3Exchanger.selfPosition, hget, Option.getD_some]
  · rw [NodeStore.getNodesInRange, hget]

open Idle in
theorem reads_moving : ((after moving).2.nodeStore.selectionInput self).selfPos = place :=
  (reads_last_set (Reactive.run_play _ _ moving) (by decide +kernel) rfl
    (rfl : (DNVE3Exchanger.mk self ⟨[]⟩ 3).localNodeId = self) 0).1

open Idle in
/-- Ten seconds after it stopped the node is at the origin for its own selection, and
the peer at its side is out of its area of interest. -/
theorem own_position_forgotten :
    ∃ moves s, Reactive.Run (EngineStore.step self) .new moves s ∧ s.lastSet = some place ∧
      s.nodeStore.nodes.get self = none ∧ ¬ s.Remembers self ∧
      (s.nodeStore.selectionInput self).selfPos = Position.zero ∧
      s.nodeStore.nodes.get peer = some place ∧ s.aoiNodes = [] := by
  have hforgotten : (after standing).2.nodeStore.nodes.get self = none := rfl
  refine ⟨_, _, Reactive.run_play _ _ standing, rfl, hforgotten, fun h => ?_, rfl, rfl, rfl⟩
  have hheld : (after standing).2.nodeStore.nodes.get self = some place := h place rfl
  rw [hforgotten] at hheld
  cases hheld

end Mistlib.Overlay
