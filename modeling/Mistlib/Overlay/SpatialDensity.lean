import Mistlib.Data.Checked
import Mathlib.Algebra.Order.Ring.Nat

/-!
# Spatial densities

A density counts, by direction and by distance layer, how many nodes are
around a position. The map is one vector of `dir_count * layer_count` values,
and a density that arrived from a peer says itself how many of each it has.

Nothing here depends on what the values are; what is proved is which shapes keep the indices
within the vectors.
-/

namespace Mistlib.Overlay

def EPSILON : Float32 := 0.00001
def DEFAULT_MAX_RANGE : Float32 := 1.0
def EXPANSION_FACTOR : Float32 := 0.5
def BYTE_SCALE : Float32 := 255.0
def PI : Float32 := 3.14159265358979323846264338327950288
def U8_MAX : Nat := 255

/-! ## Floats -/

/-- `f32::max`: a NaN loses against a number. -/
def maxFloat (a b : Float32) : Float32 :=
  if a.isNaN then b else if b.isNaN then a else if a < b then b else a

def clampFloat (x low high : Float32) : Float32 :=
  if x < low then low else if x > high then high else x

structure Position where
  x : Float32
  y : Float32
  z : Float32

namespace Position

def zero : Position := ⟨0.0, 0.0, 0.0⟩

instance : Sub Position := ⟨fun a b => ⟨a.x - b.x, a.y - b.y, a.z - b.z⟩⟩

instance : BEq Position := ⟨fun a b => a.x == b.x && a.y == b.y && a.z == b.z⟩

def dot (a b : Position) : Float32 := a.x * b.x + a.y * b.y + a.z * b.z

def sqrMagnitude (a : Position) : Float32 := a.x * a.x + a.y * a.y + a.z * a.z

def magnitude (a : Position) : Float32 := a.sqrMagnitude.sqrt

def normalized (a : Position) : Position :=
  let mag := a.magnitude
  if mag > 0.0 then ⟨a.x / mag, a.y / mag, a.z / mag⟩ else zero

def dist (a b : Position) : Float32 := (a - b).magnitude

end Position

/-! ## Densities -/

structure SpatialDensityData where
  densityMap : List Float32
  position : Position
  dirCount : UInt8
  layerCount : UInt8

instance : BEq SpatialDensityData :=
  ⟨fun a b => a.densityMap == b.densityMap && a.position == b.position &&
    a.dirCount == b.dirCount && a.layerCount == b.layerCount⟩

structure SpatialDensityDataByte where
  position : Position
  maxValue : Float32
  byteDensities : List UInt8
  dirCount : UInt8
  layerCount : UInt8

def SpatialDensityData.toByteEncoded (data : SpatialDensityData) : SpatialDensityDataByte :=
  let maxValue := data.densityMap.foldl maxFloat 0.0
  { position := data.position
    maxValue
    byteDensities :=
      if maxValue ≤ EPSILON then List.replicate data.densityMap.length 0
      else data.densityMap.map fun value =>
        ((clampFloat (value / maxValue) 0.0 1.0) * BYTE_SCALE).round.toUInt8
    dirCount := data.dirCount
    layerCount := data.layerCount }

def SpatialDensityData.fromByteEncoded (encoded : SpatialDensityDataByte) : SpatialDensityData where
  densityMap :=
    if encoded.maxValue ≤ EPSILON then List.replicate encoded.byteDensities.length 0.0
    else encoded.byteDensities.map fun value => value.toFloat32 / BYTE_SCALE * encoded.maxValue
  position := encoded.position
  dirCount := encoded.dirCount
  layerCount := encoded.layerCount

inductive SpatialPartitionType where
  | fibonacci
  | tetrahedron
  | cube
  | octahedron
  | dodecahedron
  | icosahedron
deriving DecidableEq, Repr

structure SpatialDensityUtils where
  directions : List Position

namespace SpatialDensityUtils

/-- The direction set never grows past what the counts on the wire can say. -/
def generateFibonacciDirections (count : Nat) : List Position :=
  let count := min count U8_MAX
  if count = 1 then [⟨0.0, 0.0, 1.0⟩]
  else
    let phi := PI * (3.0 - (5.0 : Float32).sqrt)
    (List.range count).map fun i =>
      let y := 1.0 - i.toFloat32 / (count - 1).toFloat32 * 2.0
      let radius := (1.0 - y * y).sqrt
      let theta := phi * i.toFloat32
      ⟨theta.cos * radius, y, theta.sin * radius⟩

def normalizedVectors (vectors : List Position) : List Position := vectors.map Position.normalized

def generateTetrahedronFaceNormals : List Position :=
  normalizedVectors [⟨1.0, 1.0, 1.0⟩, ⟨1.0, -1.0, -1.0⟩, ⟨-1.0, 1.0, -1.0⟩, ⟨-1.0, -1.0, 1.0⟩]

def generateCubeFaceNormals : List Position :=
  [⟨1.0, 0.0, 0.0⟩, ⟨-1.0, 0.0, 0.0⟩, ⟨0.0, 1.0, 0.0⟩, ⟨0.0, -1.0, 0.0⟩, ⟨0.0, 0.0, 1.0⟩,
    ⟨0.0, 0.0, -1.0⟩]

def generateOctahedronFaceNormals : List Position :=
  let signs : List Float32 := [-1.0, 1.0]
  signs.flatMap fun x => signs.flatMap fun y => signs.map fun z =>
    Position.normalized ⟨x, y, z⟩

def generateDodecahedronFaceNormals : List Position :=
  let phi := (1.0 + (5.0 : Float32).sqrt) / 2.0
  normalizedVectors
    [⟨0.0, 1.0, phi⟩, ⟨0.0, 1.0, -phi⟩, ⟨0.0, -1.0, phi⟩, ⟨0.0, -1.0, -phi⟩,
      ⟨1.0, phi, 0.0⟩, ⟨1.0, -phi, 0.0⟩, ⟨-1.0, phi, 0.0⟩, ⟨-1.0, -phi, 0.0⟩,
      ⟨phi, 0.0, 1.0⟩, ⟨phi, 0.0, -1.0⟩, ⟨-phi, 0.0, 1.0⟩, ⟨-phi, 0.0, -1.0⟩]

def generateIcosahedronFaceNormals : List Position :=
  let phi := (1.0 + (5.0 : Float32).sqrt) / 2.0
  let invPhi := 1.0 / phi
  generateOctahedronFaceNormals ++
    ([-invPhi, invPhi].flatMap fun y => [-phi, phi].map fun z => Position.normalized ⟨0.0, y, z⟩) ++
    ([-invPhi, invPhi].flatMap fun x => [-phi, phi].map fun y => Position.normalized ⟨x, y, 0.0⟩) ++
    ([-phi, phi].flatMap fun x => [-invPhi, invPhi].map fun z => Position.normalized ⟨x, 0.0, z⟩)

def newWithPartition (count : Nat) (partitionType : SpatialPartitionType) : SpatialDensityUtils where
  directions :=
    match partitionType with
    | .fibonacci => generateFibonacciDirections count
    | .tetrahedron => generateTetrahedronFaceNormals
    | .cube => generateCubeFaceNormals
    | .octahedron => generateOctahedronFaceNormals
    | .dodecahedron => generateDodecahedronFaceNormals
    | .icosahedron => generateIcosahedronFaceNormals

variable (utils : SpatialDensityUtils)

def clampLayers (layerCount : Nat) : Nat := min (max layerCount 1) U8_MAX

/-- The range the layers divide: the greatest distance where none is configured. -/
def actualMaxRange (center : Position) (nodes : List Position) (maxRange : Float32) : Float32 :=
  if maxRange ≤ EPSILON then
    let farthest := nodes.foldl (fun range node =>
      let d := center.dist node
      if d > range then d else range) 0.0
    if farthest ≤ EPSILON then DEFAULT_MAX_RANGE else farthest
  else maxRange

def addScore (unitVec : Position) (layerCount layerIndex : Nat) (densityMap : List Float32)
    (direction : Position × Nat) : Checked (List Float32) :=
  if direction.1.dot unitVec > 0.0 then
    Checked.addAt densityMap (direction.2 * layerCount + layerIndex) (direction.1.dot unitVec)
  else .ok densityMap

/-- Add a node to its layer of every direction it is in. -/
def addNode (center : Position) (layerCount : Nat) (range : Float32) (densityMap : List Float32)
    (node : Position) : Checked (List Float32) :=
  let vec := node - center
  let layerIndex :=
    min (vec.magnitude / range * layerCount.toFloat32).floor.toUInt64.toNat (layerCount - 1)
  utils.directions.zipIdx.foldlM (addScore vec.normalized layerCount layerIndex) densityMap

def createSpatialDensity (center : Position) (nodes : List Position) (layerCount : Nat)
    (maxRange : Float32) : Checked SpatialDensityData := do
  let dirCount := utils.directions.length
  let layerCount := clampLayers layerCount
  let range := actualMaxRange center nodes maxRange
  let densityMap ← nodes.foldlM (utils.addNode center layerCount range)
    (List.replicate (dirCount * layerCount) 0.0)
  .ok {
    densityMap
    position := center
    dirCount := UInt8.ofNat dirCount
    layerCount := UInt8.ofNat layerCount }

/-- Where a density is kept as it came. -/
def near (data : SpatialDensityData) (newCenter : Position) : Prop :=
  (newCenter - data.position).sqrMagnitude ≤ EPSILON * EPSILON
deriving Decidable

/-- One layer of a direction, seen from another place. -/
def projectLayer (data : SpatialDensityData) (cosSim : Float32) (i : Nat)
    (projectedMap : List Float32) (j : Nat) : Checked (List Float32) := do
  let idx := i * data.layerCount.toNat + j
  let density ← Checked.index data.densityMap idx
  let val := density * (1.0 + EXPANSION_FACTOR * cosSim)
  Checked.update projectedMap idx (maxFloat val 0.0)

def projectDirection (data : SpatialDensityData) (offsetUnit : Position)
    (projectedMap : List Float32) (i : Nat) : Checked (List Float32) := do
  let direction ← Checked.index utils.directions i
  let cosSim := clampFloat (direction.dot offsetUnit) (-1.0) 1.0
  (List.range data.layerCount.toNat).foldlM (projectLayer data cosSim i) projectedMap

def projectSpatialDensity (data : SpatialDensityData) (newCenter : Position) :
    Checked SpatialDensityData :=
  if near data newCenter then .ok data
  else do
    let offsetUnit := (newCenter - data.position).normalized
    let projectedMap ← (List.range data.dirCount.toNat).foldlM
      (utils.projectDirection data offsetUnit) (List.replicate data.densityMap.length 0.0)
    .ok {
      densityMap := projectedMap
      position := newCenter
      dirCount := data.dirCount
      layerCount := data.layerCount }

/-- A value of the own map with the other's at its place. -/
def mergeValue (otherMap : List Float32) (value : Float32 × Nat) : Checked Float32 := do
  let density ← Checked.index otherMap value.2
  .ok (value.1 + density)

def mergeSpatialDensity (self other : SpatialDensityData) : Checked SpatialDensityData := do
  let otherProjected ← utils.projectSpatialDensity other self.position
  let mergedMap ← self.densityMap.zipIdx.mapM (mergeValue otherProjected.densityMap)
  .ok { self with densityMap := mergedMap }

/-! ## Which shapes stay within the vectors -/

theorem clampLayers_pos (layerCount : Nat) : 0 < clampLayers layerCount :=
  Nat.lt_min.mpr ⟨Nat.lt_of_lt_of_le Nat.one_pos (Nat.le_max_right _ _), by decide⟩

section Shapes

variable {utils : SpatialDensityUtils} {data : SpatialDensityData} {center : Position}

variable {i j : Nat}

theorem cell_lt {rows columns : Nat} (hi : i < rows) (hj : j < columns) :
    i * columns + j < rows * columns :=
  calc i * columns + j
      < i * columns + columns := Nat.add_lt_add_left hj _
    _ = (i + 1) * columns := (Nat.succ_mul _ _).symm
    _ ≤ rows * columns := Nat.mul_le_mul_right _ hi

theorem addNode_ok (center : Position) {layerCount : Nat} (hlayers : 0 < layerCount) (range : Float32)
    (node : Position) {densityMap : List Float32}
    (hlength : densityMap.length = utils.directions.length * layerCount) :
    ∃ densityMap', utils.addNode center layerCount range densityMap node = .ok densityMap' ∧
      densityMap'.length = utils.directions.length * layerCount := by
  refine Checked.foldlM_ok _ (fun map direction hmem hmap => ?_) hlength
  have hi : direction.2 < utils.directions.length := by
    obtain ⟨-, hi, -⟩ := List.mem_zipIdx hmem
    rwa [Nat.zero_add] at hi
  unfold addScore
  split
  · have hcell := cell_lt hi (Nat.lt_of_le_of_lt (Nat.min_le_right
      ((node - center).magnitude / range * layerCount.toFloat32).floor.toUInt64.toNat
      (layerCount - 1)) (Nat.sub_lt hlayers Nat.one_pos))
    rw [← hmap] at hcell
    obtain ⟨map', hadd, hsame⟩ := Checked.addAt_ok hcell (direction.1.dot (node - center).normalized)
    exact ⟨map', hadd, hsame.trans hmap⟩
  · exact ⟨map, rfl, hmap⟩

/-- A density a node makes itself: the counts say how long the map is. -/
structure OwnShape (utils : SpatialDensityUtils) (layerCount : Nat) (data : SpatialDensityData) :
    Prop where
  length : data.densityMap.length = utils.directions.length * clampLayers layerCount
  dirs : data.dirCount = UInt8.ofNat utils.directions.length
  layers : data.layerCount = UInt8.ofNat (clampLayers layerCount)

theorem createSpatialDensity_ok (utils : SpatialDensityUtils) (center : Position)
    (nodes : List Position) (layerCount : Nat) (maxRange : Float32) :
    ∃ data, utils.createSpatialDensity center nodes layerCount maxRange = .ok data ∧
      data.position = center ∧ OwnShape utils layerCount data := by
  obtain ⟨densityMap, hmap, hlength⟩ := Checked.foldlM_ok nodes
    (fun map node _ hmap => addNode_ok center (clampLayers_pos layerCount)
      (actualMaxRange center nodes maxRange) node hmap)
    (List.length_replicate (n := utils.directions.length * clampLayers layerCount) (a := 0.0))
  exact ⟨_, Checked.bind_eq_ok.mpr ⟨densityMap, hmap, rfl⟩, rfl, hlength, rfl, rfl⟩

/-- Every row of a projection is within the directions and the map. -/
def RowsWithin (utils : SpatialDensityUtils) (data : SpatialDensityData) : Prop :=
  data.dirCount.toNat ≤ utils.directions.length ∧
    data.dirCount.toNat * data.layerCount.toNat ≤ data.densityMap.length

variable {projectedMap : List Float32}

theorem projectLayer_completes {cosSim : Float32}
    (hlength : projectedMap.length = data.densityMap.length) :
    (projectLayer data cosSim i projectedMap j).Completes ↔
      i * data.layerCount.toNat + j < data.densityMap.length := by
  rw [projectLayer, Checked.completes_bind]
  constructor
  · rintro ⟨density, hindex, -⟩
    exact Checked.index_completes.mp ⟨density, hindex⟩
  · intro h
    obtain ⟨density, hindex⟩ := Checked.index_completes.mpr h
    exact ⟨density, hindex, Checked.update_completes.mpr (hlength ▸ h)⟩

theorem length_of_projectLayer {cosSim : Float32} {projectedMap' : List Float32}
    (h : projectLayer data cosSim i projectedMap j = .ok projectedMap') :
    projectedMap'.length = projectedMap.length := by
  obtain ⟨density, -, hupdate⟩ := Checked.bind_eq_ok.mp h
  exact Checked.length_of_update hupdate

theorem length_of_projectDirection {offsetUnit : Position} {projectedMap' : List Float32}
    (h : utils.projectDirection data offsetUnit projectedMap i = .ok projectedMap') :
    projectedMap'.length = projectedMap.length := by
  obtain ⟨direction, -, hlayers⟩ := Checked.bind_eq_ok.mp h
  exact Checked.foldlM_keeps (P := fun map => map.length = projectedMap.length)
    (fun _ _ _ hmap hstep => (length_of_projectLayer hstep).trans hmap) rfl hlayers

theorem projectDirection_completes {offsetUnit : Position}
    (hlength : projectedMap.length = data.densityMap.length) :
    (utils.projectDirection data offsetUnit projectedMap i).Completes ↔
      i < utils.directions.length ∧ ∀ j ∈ List.range data.layerCount.toNat,
        i * data.layerCount.toNat + j < data.densityMap.length := by
  have hloop := fun cosSim =>
    Checked.foldlM_completes (f := projectLayer data cosSim i)
      (P := fun map => map.length = data.densityMap.length)
      (fun _ _ _ hmap hstep => (length_of_projectLayer hstep).trans hmap)
      (fun _ _ hmap => projectLayer_completes hmap) (List.range data.layerCount.toNat) hlength
  rw [projectDirection, Checked.completes_bind]
  constructor
  · rintro ⟨direction, hindex, hlayers⟩
    exact ⟨Checked.index_completes.mp ⟨direction, hindex⟩, (hloop _).mp hlayers⟩
  · rintro ⟨hi, hlayers⟩
    obtain ⟨direction, hindex⟩ := Checked.index_completes.mpr hi
    exact ⟨direction, hindex, (hloop _).mpr hlayers⟩

theorem rows_iff {rows columns directions length : Nat} :
    (∀ i ∈ List.range rows, i < directions ∧ ∀ j ∈ List.range columns, i * columns + j < length) ↔
      rows ≤ directions ∧ rows * columns ≤ length := by
  simp only [List.mem_range]
  constructor
  · intro h
    rcases Nat.eq_zero_or_pos rows with rfl | hrows
    · exact ⟨Nat.zero_le _, by rw [Nat.zero_mul]; exact Nat.zero_le _⟩
    · obtain ⟨hlast, hcells⟩ := h (rows - 1) (Nat.sub_lt hrows Nat.one_pos)
      refine ⟨by omega, ?_⟩
      rcases Nat.eq_zero_or_pos columns with rfl | hcolumns
      · exact Nat.zero_le _
      · have hcell := hcells (columns - 1) (Nat.sub_lt hcolumns Nat.one_pos)
        calc rows * columns = (rows - 1) * columns + columns := by
              rw [← Nat.succ_mul, Nat.succ_eq_add_one, Nat.sub_add_cancel hrows]
          _ ≤ length := by omega
  · rintro ⟨hrows, hcells⟩ i hi
    exact ⟨Nat.lt_of_lt_of_le hi hrows, fun j hj => Nat.lt_of_lt_of_le (cell_lt hi hj) hcells⟩

/-- A projection stays within the vectors exactly if the counts that came with
the density do, or if it leaves the density as it came. -/
theorem projectSpatialDensity_completes :
    (utils.projectSpatialDensity data center).Completes ↔
      (near data center ∨ RowsWithin utils data) := by
  unfold projectSpatialDensity
  split
  · next hnear => exact iff_of_true (Checked.completes_ok _) (.inl hnear)
  · next hfar =>
    have hloop := Checked.foldlM_completes (P := fun map => map.length = data.densityMap.length)
      (f := utils.projectDirection data (center - data.position).normalized)
      (fun _ _ _ hmap hstep => (length_of_projectDirection hstep).trans hmap)
      (fun _ _ hmap => projectDirection_completes hmap) (List.range data.dirCount.toNat)
      (List.length_replicate (n := data.densityMap.length) (a := 0.0))
    rw [rows_iff] at hloop
    rw [or_iff_right hfar, RowsWithin, ← hloop, Checked.completes_bind]
    exact ⟨fun ⟨map, hmap, _⟩ => ⟨map, hmap⟩, fun ⟨map, hmap⟩ => ⟨map, hmap, Checked.completes_ok _⟩⟩

theorem length_of_projectSpatialDensity {projected : SpatialDensityData}
    (h : utils.projectSpatialDensity data center = .ok projected) :
    projected.densityMap.length = data.densityMap.length := by
  unfold projectSpatialDensity at h
  split at h
  · cases h
    rfl
  · obtain ⟨map, hmap, hprojected⟩ := Checked.bind_eq_ok.mp h
    cases hprojected
    exact Checked.foldlM_keeps (P := fun map => map.length = data.densityMap.length)
      (fun _ _ _ hmap hstep => (length_of_projectDirection hstep).trans hmap)
      List.length_replicate hmap

theorem places_iff {α : Type} {items : List α} {length : Nat} :
    (∀ item ∈ items.zipIdx, item.2 < length) ↔ items.length ≤ length := by
  constructor
  · intro h
    by_contra hlong
    have hplace : length < items.length := Nat.lt_of_not_le hlong
    refine Nat.lt_irrefl length (h (items[length], length) ?_)
    exact List.mem_zipIdx_iff_getElem?.mpr (List.getElem?_eq_getElem hplace)
  · intro h item hmem
    obtain ⟨-, hplace, -⟩ := List.mem_zipIdx hmem
    omega

theorem mergeValue_completes {otherMap : List Float32} {value : Float32 × Nat} :
    (mergeValue otherMap value).Completes ↔ value.2 < otherMap.length := by
  rw [mergeValue, Checked.completes_bind, ← Checked.index_completes]
  exact ⟨fun ⟨density, h, _⟩ => ⟨density, h⟩, fun ⟨density, h⟩ => ⟨density, h, Checked.completes_ok _⟩⟩

/-- A merge completes exactly if its rows and the own map fit. -/
theorem mergeSpatialDensity_completes {self : SpatialDensityData} :
    (utils.mergeSpatialDensity self data).Completes ↔
      (near data self.position ∨ RowsWithin utils data) ∧
        self.densityMap.length ≤ data.densityMap.length := by
  have hmap : ∀ {projected : SpatialDensityData},
      utils.projectSpatialDensity data self.position = .ok projected →
      ((self.densityMap.zipIdx.mapM (mergeValue projected.densityMap)).Completes ↔
        self.densityMap.length ≤ data.densityMap.length) := by
    intro projected hprojected
    rw [Checked.mapM_completes, ← length_of_projectSpatialDensity hprojected, ← places_iff]
    exact forall₂_congr fun item _ => mergeValue_completes
  rw [mergeSpatialDensity, Checked.completes_bind, ← projectSpatialDensity_completes]
  constructor
  · rintro ⟨projected, hprojected, hrest⟩
    obtain ⟨map, hmerged, -⟩ := Checked.completes_bind.mp hrest
    exact ⟨⟨projected, hprojected⟩, (hmap hprojected).mp ⟨map, hmerged⟩⟩
  · rintro ⟨⟨projected, hprojected⟩, hlength⟩
    obtain ⟨map, hmerged⟩ := (hmap hprojected).mpr hlength
    exact ⟨projected, hprojected,
      Checked.completes_bind.mpr ⟨map, hmerged, Checked.completes_ok _⟩⟩

end Shapes

end SpatialDensityUtils

end Mistlib.Overlay
