import Mistlib.Config.Settings
import Mistlib.Data.Comparing

/-!
# Which nodes to connect to

The selection of each connection mode: the nearest nodes in the area of interest,
the nearest in each direction, those the densities point to, or a mixture. Nothing
here depends on what the floats are; every selection is a list of known nodes
without repetitions.

The `seen` sets of the source hold what `selected` holds, so the list itself is asked.
-/

namespace Mistlib

def NodeId.cmp (a b : NodeId) : Ordering := compare a.id b.id

end Mistlib

namespace Mistlib.Overlay

open Comparing (sortBy minBy maxBy)
open MistEngine (ConnectionMode)

def MIN_DISTANCE_THRESHOLD : Float32 := 0.001
def AOI_GUARD_CONNECTIONS : Nat := 5
def DISTANCE_SCORE_WEIGHT : Float32 := 1.0
def PEER_DENSITY_SCORE_WEIGHT : Float32 := 0.25
def AUTO_DIRECTION_THRESHOLD_SENTINEL : Float32 := 0.0
def PSENSE_SENSOR_RESERVE_DIVISOR : Nat := 4
def PSENSE_MIN_SENSOR_RESERVE : Nat := 1
def USIZE_MAX : Nat := 2 ^ 64 - 1

/-- The place of a float in the order of `f32::total_cmp`: by its bits, the
negative ones reversed. -/
def totalKey (x : Float32) : Int :=
  let bits := x.toBits.toNat
  if bits < 2 ^ 31 then bits else 2 ^ 31 - 1 - bits

def totalCmp (a b : Float32) : Ordering := compare (totalKey a) (totalKey b)

def SpatialPartitionType.directionCount (fibonacciResolution : Nat) : SpatialPartitionType → Nat
  | .fibonacci => max fibonacciResolution 1
  | .tetrahedron => 4
  | .cube => 6
  | .octahedron => 8
  | .dodecahedron => 12
  | .icosahedron => 20

def effectiveDirectionThresholdFor (densityResolution : Nat) (configuredThreshold : Float32) : Float32 :=
  if 0.0 ≤ configuredThreshold ∧ configuredThreshold ≤ 1.0 ∧
      configuredThreshold > AUTO_DIRECTION_THRESHOLD_SENTINEL then
    configuredThreshold
  else
    let directionCount := (max densityResolution 1).toFloat32
    let sphericalCapArea := 4.0 * PI / directionCount
    let capCos := clampFloat (1.0 - sphericalCapArea / (2.0 * PI)) (-1.0) 1.0
    let capHalfAngle := capCos.acos
    let tunedHalfAngle := clampFloat (capHalfAngle * 0.9) 0.0 PI
    clampFloat tunedHalfAngle.cos 0.0 0.999999

def effectiveDirectionThreshold (config : Config Float32) : Float32 :=
  effectiveDirectionThresholdFor
    (config.dnve.spatialPartitionType.directionCount config.dnve.densityResolution.toNat)
    config.dnve.directionThreshold

structure DensityGuidance where
  directionScores : List Float32
  peerScores : Table NodeId Float32

namespace DensityGuidance

variable (guidance : DensityGuidance)

def hasSignal : Bool :=
  guidance.directionScores.any (fun score => decide (score > 0.0)) ||
    guidance.peerScores.values.any fun score => decide (score > 0.0)

def directionScore (index : Nat) : Float32 := (guidance.directionScores[index]?).getD 0.0

def peerScore (id : NodeId) : Float32 := (guidance.peerScores.get id).getD 0.0

end DensityGuidance

/-- The known nodes that are measured, with their measure. -/
def measured {β : Type} (allNodes : List (NodeId × Position)) (measure : NodeId → Position → Option β) :
    List (NodeId × β) :=
  allNodes.filterMap fun node => (measure node.1 node.2).map (node.1, ·)

/-- The distance of a node that lies in a direction. -/
def distanceToward (selfPos dir : Position) (directionThreshold : Float32) (pos : Position) : Option Float32 :=
  let vec := pos - selfPos
  let dist := vec.magnitude
  if dist < MIN_DISTANCE_THRESHOLD then none
  else if vec.normalized.dot dir < directionThreshold then none
  else some dist

def insertUnique (selected : List NodeId) (id : NodeId) : List NodeId :=
  if id ∈ selected then selected else selected ++ [id]

def extendUniqueNodes (maxSelected : Nat) (selected : List NodeId) : List NodeId → List NodeId
  | [] => selected
  | id :: nodes =>
    if selected.length ≥ maxSelected then selected
    else extendUniqueNodes maxSelected (insertUnique selected id) nodes

/-- The last loop of the density-guided selection, which looks at the limit after
it has taken a node. -/
def takeUnique (maxSelected : Nat) (selected : List NodeId) : List NodeId → List NodeId
  | [] => selected
  | id :: nodes =>
    if id ∈ selected then takeUnique maxSelected selected nodes
    else if (selected ++ [id]).length ≥ maxSelected then selected ++ [id]
    else takeUnique maxSelected (selected ++ [id]) nodes

structure DNVE3ConnectionBalancer where
  spatialUtils : SpatialDensityUtils

namespace DNVE3ConnectionBalancer

def new (config : Config Float32) : DNVE3ConnectionBalancer where
  spatialUtils := SpatialDensityUtils.newWithPartition config.dnve.densityResolution.toNat
    config.dnve.spatialPartitionType

def byDistance (a b : NodeId × Float32) : Ordering := totalCmp a.2 b.2

def byDistanceThenId (a b : NodeId × Float32) : Ordering := (byDistance a b).then (a.1.cmp b.1)

def selectAoiGuardNodes (config : Config Float32) (selfPos : Position) (allNodes : List (NodeId × Position))
    (limit : Nat) : List NodeId :=
  if limit = 0 ∨ config.dnve.aoiRange ≤ MIN_DISTANCE_THRESHOLD then []
  else
    let candidates := measured allNodes fun _ pos =>
      let dist := (pos - selfPos).magnitude
      if MIN_DISTANCE_THRESHOLD ≤ dist ∧ dist ≤ config.dnve.aoiRange then some dist else none
    ((sortBy byDistanceThenId candidates).take limit).map (·.1)

def selectProximityNodes (selfPos : Position) (allNodes : List (NodeId × Position)) (target : Nat) :
    List NodeId :=
  let distances := measured allNodes fun _ pos =>
    let dist := (pos - selfPos).magnitude
    if dist < MIN_DISTANCE_THRESHOLD then none else some dist
  ((sortBy byDistance distances).take target).map (·.1)

variable (b : DNVE3ConnectionBalancer)

def selectDirectionalNodes (config : Config Float32) (selfPos : Position)
    (allNodes : List (NodeId × Position)) : List NodeId :=
  let directionThreshold := effectiveDirectionThreshold config
  b.spatialUtils.directions.foldl (fun selected dir =>
    match minBy byDistance (measured allNodes fun _ pos => distanceToward selfPos dir directionThreshold pos) with
    | some closest => insertUnique selected closest.1
    | none => selected) []

/-- The distance and the score of a node that lies in a direction. -/
def scoreToward (guidance : DensityGuidance) (selfPos dir : Position) (directionThreshold directionScore : Float32)
    (id : NodeId) (pos : Position) : Option (Float32 × Float32) :=
  let vec := pos - selfPos
  let dist := vec.magnitude
  if dist < MIN_DISTANCE_THRESHOLD then none
  else
    let alignment := vec.normalized.dot dir
    if alignment < directionThreshold then none
    else
      some (dist, directionScore + guidance.peerScore id * PEER_DENSITY_SCORE_WEIGHT + alignment -
        dist * DISTANCE_SCORE_WEIGHT)

/-- By score, then the nearer one, then the id. -/
def byScore (a b : NodeId × Float32 × Float32) : Ordering :=
  ((totalCmp a.2.2 b.2.2).then (totalCmp b.2.1 a.2.1)).then (b.1.cmp a.1)

/-- A direction's best node: its id, the score of the direction, its own score and
its distance. -/
structure Candidate where
  id : NodeId
  directionScore : Float32
  score : Float32
  dist : Float32

def Candidate.cmp (a b : Candidate) : Ordering :=
  (((totalCmp b.directionScore a.directionScore).then (totalCmp b.score a.score)).then
    (totalCmp a.dist b.dist)).then (a.id.cmp b.id)

def selectDensityGuidedDirectionalNodes (config : Config Float32) (selfPos : Position)
    (allNodes : List (NodeId × Position)) (guidance : DensityGuidance) (target : Nat) : List NodeId :=
  let directionThreshold := effectiveDirectionThreshold config
  let maxSelected := min (max target 1) config.limits.maxConnectionCount.toNat
  let candidates := b.spatialUtils.directions.zipIdx.filterMap fun dir =>
    let directionScore := guidance.directionScore dir.2
    (maxBy byScore (measured allNodes
      (scoreToward guidance selfPos dir.1 directionThreshold directionScore))).map fun best =>
        (⟨best.1, directionScore, best.2.2, best.2.1⟩ : Candidate)
  takeUnique maxSelected [] ((sortBy Candidate.cmp candidates).map (·.id))

/-- A mode that takes its nodes from one list after the other, up to the limit. -/
def selectInStages (config : Config Float32) (stages : List (List NodeId)) : List NodeId :=
  if config.limits.maxConnectionCount = 0 then []
  else stages.foldl (extendUniqueNodes config.limits.maxConnectionCount.toNat) []

section Modes

variable (config : Config Float32) (selfPos : Position) (allNodes : List (NodeId × Position))

def selectDirectionDensityNodes (guidance : Option DensityGuidance) : List NodeId :=
  selectInStages config
    ([selectAoiGuardNodes config selfPos allNodes AOI_GUARD_CONNECTIONS,
      b.selectDirectionalNodes config selfPos allNodes] ++
      guidance.toList.map fun guidance => b.selectDensityGuidedDirectionalNodes config selfPos allNodes
        guidance config.limits.maxConnectionCount.toNat)

def selectDirectionDensityLightNodes (guidance : Option DensityGuidance) : List NodeId :=
  selectInStages config
    ([b.selectDirectionalNodes config selfPos allNodes] ++
      guidance.toList.map fun guidance => b.selectDensityGuidedDirectionalNodes config selfPos allNodes
        guidance config.limits.maxConnectionCount.toNat)

/-- The guided stage is cut at `target` here. -/
def selectNodeListAoiDensityNodes (guidance : Option DensityGuidance) (target : Nat) : List NodeId :=
  selectInStages config
    ([selectAoiGuardNodes config selfPos allNodes AOI_GUARD_CONNECTIONS,
      b.selectDirectionalNodes config selfPos allNodes] ++
      guidance.toList.map fun guidance => b.selectDensityGuidedDirectionalNodes config selfPos allNodes
        guidance target)

def selectNodeListAoiGuardNodes : List NodeId :=
  selectInStages config
    [selectAoiGuardNodes config selfPos allNodes AOI_GUARD_CONNECTIONS,
      b.selectDirectionalNodes config selfPos allNodes]

def selectNodeListAoiProximityNodes : List NodeId :=
  selectInStages config
    [selectAoiGuardNodes config selfPos allNodes AOI_GUARD_CONNECTIONS,
      selectProximityNodes selfPos allNodes config.limits.maxConnectionCount.toNat]

def pSenseSensorBudget (maxSelected nearCount sensorCount : Nat) : Nat :=
  if maxSelected ≤ 1 ∨ sensorCount = 0 then 0
  else
    let reserveLimit := if nearCount = 0 then maxSelected else maxSelected - 1
    let reserve := min (max (maxSelected / PSENSE_SENSOR_RESERVE_DIVISOR) PSENSE_MIN_SENSOR_RESERVE) reserveLimit
    min reserve sensorCount

/-- The nearest node outside the area of interest in each direction. -/
def selectPSenseSensorNodes : List NodeId :=
  let directionThreshold := effectiveDirectionThreshold config
  b.spatialUtils.directions.filterMap fun dir =>
    (minBy byDistanceThenId (measured allNodes fun _ pos =>
      if (pos - selfPos).magnitude ≤ config.dnve.aoiRange then none
      else distanceToward selfPos dir directionThreshold pos)).map (·.1)

def selectPSenseNodes : List NodeId :=
  let maxSelected := config.limits.maxConnectionCount.toNat
  if maxSelected = 0 then []
  else
    let nearNodes := selectAoiGuardNodes config selfPos allNodes USIZE_MAX
    let sensorNodes := b.selectPSenseSensorNodes config selfPos allNodes
    let sensorBudget := pSenseSensorBudget maxSelected nearNodes.length sensorNodes.length
    let nearBudget := maxSelected - sensorBudget
    let selected := extendUniqueNodes nearBudget [] nearNodes
    let sensorCap := min (selected.length + sensorBudget) maxSelected
    let selected := extendUniqueNodes sensorCap selected sensorNodes
    let selected := extendUniqueNodes maxSelected selected nearNodes
    extendUniqueNodes maxSelected selected sensorNodes

/-- What the mode selects. Guidance without a signal is none. -/
def selectedNodes (densityGuidance : Option DensityGuidance) (target : Nat) : List NodeId :=
  let guidance := densityGuidance.filter (·.hasSignal)
  match config.dnve.connectionMode with
  | .directionDensity => b.selectDirectionDensityNodes config selfPos allNodes guidance
  | .directionDensityLight => b.selectDirectionDensityLightNodes config selfPos allNodes guidance
  | .nodeListDirectional => b.selectDirectionalNodes config selfPos allNodes
  | .nodeListAoiGuard => b.selectNodeListAoiGuardNodes config selfPos allNodes
  | .nodeListAoiProximity => selectNodeListAoiProximityNodes config selfPos allNodes
  | .nodeListAoiDensity => b.selectNodeListAoiDensityNodes config selfPos allNodes guidance target
  | .nodeListProximity => selectProximityNodes selfPos allNodes config.limits.maxConnectionCount.toNat
  | .pSense => b.selectPSenseNodes config selfPos allNodes

end Modes

end DNVE3ConnectionBalancer

/-! ## What is selected -/

/-- A list of known nodes without repetitions. -/
structure Selects (allNodes : List (NodeId × Position)) (selected : List NodeId) : Prop where
  nodup : selected.Nodup
  known : ∀ id ∈ selected, id ∈ allNodes.map (·.1)

section Selections

variable {allNodes : List (NodeId × Position)} {selected nodes : List NodeId} {id : NodeId}

theorem measured_sublist {β : Type} (measure : NodeId → Position → Option β) :
    ((measured allNodes measure).map (·.1)).Sublist (allNodes.map (·.1)) := by
  unfold measured
  induction allNodes with
  | nil => exact .slnil
  | cons node rest ih =>
    rw [List.filterMap_cons]
    cases measure node.1 node.2 with
    | none => exact ih.cons _
    | some m => exact ih.cons_cons _

theorem mem_measured {β : Type} {measure : NodeId → Position → Option β} {x : NodeId × β}
    (h : x ∈ measured allNodes measure) : x.1 ∈ allNodes.map (·.1) :=
  (measured_sublist measure).subset (List.mem_map.mpr ⟨x, h, rfl⟩)

namespace Selects

theorem nil : Selects allNodes [] := ⟨List.nodup_nil, List.forall_mem_nil _⟩

theorem insertUnique (h : Selects allNodes selected) (hid : id ∈ allNodes.map (·.1)) :
    Selects allNodes (insertUnique selected id) := by
  unfold Overlay.insertUnique
  split
  · exact h
  · next hnew =>
    refine ⟨List.concat_eq_append ▸ h.nodup.concat hnew, fun x hx => ?_⟩
    rcases List.mem_append.mp hx with hx | hx
    · exact h.known x hx
    · rw [List.mem_singleton.mp hx]
      exact hid

theorem extendUniqueNodes (h : Selects allNodes selected) (hnodes : ∀ id ∈ nodes, id ∈ allNodes.map (·.1))
    (maxSelected : Nat) : Selects allNodes (extendUniqueNodes maxSelected selected nodes) := by
  induction nodes generalizing selected with
  | nil => exact h
  | cons id rest ih =>
    obtain ⟨hid, hrest⟩ := List.forall_mem_cons.mp hnodes
    unfold Overlay.extendUniqueNodes
    split
    · exact h
    · exact ih (h.insertUnique hid) hrest

theorem takeUnique (h : Selects allNodes selected) (hnodes : ∀ id ∈ nodes, id ∈ allNodes.map (·.1))
    (maxSelected : Nat) : Selects allNodes (takeUnique maxSelected selected nodes) := by
  induction nodes generalizing selected with
  | nil => exact h
  | cons id rest ih =>
    obtain ⟨hid, hrest⟩ := List.forall_mem_cons.mp hnodes
    unfold Overlay.takeUnique
    split
    · exact ih h hrest
    · next hnew =>
      have hinsert := h.insertUnique hid
      rw [Overlay.insertUnique, if_neg hnew] at hinsert
      split
      · exact hinsert
      · exact ih hinsert hrest

theorem nearest (hnodes : (allNodes.map (·.1)).Nodup) {β : Type} (measure : NodeId → Position → Option β)
    (cmp : NodeId × β → NodeId × β → Ordering) (limit : Nat) :
    Selects allNodes (((sortBy cmp (measured allNodes measure)).take limit).map (·.1)) := by
  have hperm := (Comparing.sortBy_perm cmp (measured allNodes measure)).map (·.1)
  have htaken : (((sortBy cmp (measured allNodes measure)).take limit).map (·.1)).Sublist
      ((sortBy cmp (measured allNodes measure)).map (·.1)) := (List.take_sublist _ _).map _
  constructor
  · exact (hperm.nodup_iff.mpr (hnodes.sublist (measured_sublist measure))).sublist htaken
  · exact fun id hid => (measured_sublist measure).subset (hperm.subset (htaken.subset hid))

end Selects

end Selections

namespace DNVE3ConnectionBalancer

section Selections

variable (b : DNVE3ConnectionBalancer) (config : Config Float32) (selfPos : Position)
  {allNodes : List (NodeId × Position)} (hnodes : (allNodes.map (·.1)).Nodup)

include hnodes in
theorem selectAoiGuardNodes_selects (limit : Nat) :
    Selects allNodes (selectAoiGuardNodes config selfPos allNodes limit) := by
  unfold selectAoiGuardNodes
  split
  · exact .nil
  · exact .nearest hnodes _ _ _

include hnodes in
theorem selectProximityNodes_selects (target : Nat) :
    Selects allNodes (selectProximityNodes selfPos allNodes target) :=
  .nearest hnodes _ _ _

theorem selectDirectionalNodes_selects :
    Selects allNodes (b.selectDirectionalNodes config selfPos allNodes) := by
  unfold selectDirectionalNodes
  refine List.foldlRecOn _ _ .nil fun selected h dir _ => ?_
  split
  · next closest hclosest => exact h.insertUnique (mem_measured (Comparing.mem_of_minBy hclosest))
  · exact h

theorem selectDensityGuidedDirectionalNodes_selects (guidance : DensityGuidance) (target : Nat) :
    Selects allNodes (b.selectDensityGuidedDirectionalNodes config selfPos allNodes guidance target) := by
  refine Selects.nil.takeUnique (fun id hid => ?_) _
  obtain ⟨candidate, hcandidate, rfl⟩ := List.mem_map.mp hid
  obtain ⟨dir, _, hdir⟩ := List.mem_filterMap.mp (Comparing.mem_sortBy.mp hcandidate)
  obtain ⟨best, hmax, rfl⟩ := Option.map_eq_some_iff.mp hdir
  exact mem_measured (Comparing.mem_of_maxBy hmax)

theorem mem_selectPSenseSensorNodes {id : NodeId}
    (h : id ∈ b.selectPSenseSensorNodes config selfPos allNodes) : id ∈ allNodes.map (·.1) := by
  obtain ⟨dir, _, hdir⟩ := List.mem_filterMap.mp h
  obtain ⟨closest, hmin, rfl⟩ := Option.map_eq_some_iff.mp hdir
  exact mem_measured (Comparing.mem_of_minBy hmin)

theorem selectInStages_selects {stages : List (List NodeId)}
    (hstages : ∀ nodes ∈ stages, Selects allNodes nodes) :
    Selects allNodes (selectInStages config stages) := by
  unfold selectInStages
  split
  · exact .nil
  · exact List.foldlRecOn _ _ .nil fun selected h nodes hmem => h.extendUniqueNodes (hstages nodes hmem).known _

include hnodes in
theorem selectPSenseNodes_selects : Selects allNodes (b.selectPSenseNodes config selfPos allNodes) := by
  have hnear := (selectAoiGuardNodes_selects config selfPos hnodes USIZE_MAX).known
  have hsensors : ∀ id ∈ b.selectPSenseSensorNodes config selfPos allNodes, id ∈ allNodes.map (·.1) :=
    fun _ h => b.mem_selectPSenseSensorNodes config selfPos h
  unfold selectPSenseNodes
  dsimp only
  split
  · exact .nil
  · exact (((Selects.nil.extendUniqueNodes hnear _).extendUniqueNodes hsensors _).extendUniqueNodes hnear
      _).extendUniqueNodes hsensors _

include hnodes in
/-- What is selected are known nodes, once each. -/
theorem selectedNodes_selects (densityGuidance : Option DensityGuidance) (target : Nat) :
    Selects allNodes (b.selectedNodes config selfPos allNodes densityGuidance target) := by
  have hguard := selectAoiGuardNodes_selects config selfPos hnodes AOI_GUARD_CONNECTIONS
  have hdirectional : Selects allNodes (b.selectDirectionalNodes config selfPos allNodes) :=
    b.selectDirectionalNodes_selects config selfPos
  have hguided : ∀ (guidance : Option DensityGuidance) (target : Nat), ∀ nodes ∈ guidance.toList.map fun guidance =>
      b.selectDensityGuidedDirectionalNodes config selfPos allNodes guidance target, Selects allNodes nodes := by
    intro guidance target nodes hmem
    obtain ⟨_, _, rfl⟩ := List.mem_map.mp hmem
    exact b.selectDensityGuidedDirectionalNodes_selects config selfPos _ _
  unfold selectedNodes
  cases config.dnve.connectionMode with
  | directionDensity | nodeListAoiDensity =>
    refine selectInStages_selects config (List.forall_mem_append.mpr ⟨?_, hguided _ _⟩)
    exact List.forall_mem_cons.mpr ⟨hguard, List.forall_mem_singleton.mpr hdirectional⟩
  | directionDensityLight =>
    refine selectInStages_selects config (List.forall_mem_append.mpr ⟨?_, hguided _ _⟩)
    exact List.forall_mem_singleton.mpr hdirectional
  | nodeListDirectional => exact hdirectional
  | nodeListAoiGuard =>
    exact selectInStages_selects config
      (List.forall_mem_cons.mpr ⟨hguard, List.forall_mem_singleton.mpr hdirectional⟩)
  | nodeListAoiProximity =>
    exact selectInStages_selects config (List.forall_mem_cons.mpr
      ⟨hguard, List.forall_mem_singleton.mpr (selectProximityNodes_selects selfPos hnodes _)⟩)
  | nodeListProximity => exact selectProximityNodes_selects selfPos hnodes _
  | pSense => exact b.selectPSenseNodes_selects config selfPos hnodes

end Selections

end DNVE3ConnectionBalancer

end Mistlib.Overlay
