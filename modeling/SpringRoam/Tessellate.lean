import SpringRoam.Split
import Mathlib

/-!
# `Patch::RecursTessellate` and `Patch::Tessellate`

The level-of-detail walk: from each root of a patch, a triangle whose hypotenuse spans more
than one grid unit and whose scaled variance exceeds one is split, and the walk continues into
its children.

Floats are modelled by an ordered field `F` (the proofs take `ℝ`, the tests `ℚ`); the
constants `PATCH_SIZE` and `VARIANCE_DEPTH` of `Patch.h` and `SQUARE_SIZE` are parameters, as
are the map's average height and `float3::distance`, which live outside the excerpt.
-/

namespace SpringRoam

/-- `float3`. -/
structure Float3 (F : Type) where
  x : F
  y : F
  z : F

/-- The fields of a `Patch` besides its two root nodes, which live in the mesh at
`TriPtr.baseLeft px pz` and `TriPtr.baseRight px pz`. `vertices` holds three floats per grid
point, the height at offset one. -/
structure Patch (F : Type) where
  coors : Int2
  vertices : Nat → F
  varianceLeft : Nat → F
  varianceRight : Nat → F
  isDirty : Bool
  isTesselated : Bool
  varianceMaxLimit : F
  camDistLODFactor : F

/-- **`Patch::Patch`**: variances, vertices and heights all zero, dirty and not tessellated;
`fltMax` stands for `std::numeric_limits<float>::max()`. -/
def Patch.init {F : Type} [LinearOrderedField F] (fltMax : F) : Patch F where
  coors := ⟨-1, -1⟩
  vertices := fun _ => 0
  varianceLeft := fun _ => 0
  varianceRight := fun _ => 0
  isDirty := true
  isTesselated := false
  varianceMaxLimit := fltMax
  camDistLODFactor := 1

section Tessellate

variable {F : Type} [LinearOrderedField F] (PATCH_SIZE VARIANCE_DEPTH : Nat)

/-- Lines 295-300: the scaled variance of the triangle with hypotenuse `left`–`right` read at
heap index `node`, or `10` when `node` is past the stored depth. -/
def triVariance (currentVariance : Nat → F) (varianceMaxLimit camDistLODFactor : F)
    (left right : Int2) (node : Nat) : F :=
  if node < 1 <<< VARIANCE_DEPTH then
    let sizeX := max (left.x - right.x) (right.x - left.x)
    let sizeY := max (left.y - right.y) (right.y - left.y)
    let size := max sizeX sizeY
    min (currentVariance node) varianceMaxLimit * PATCH_SIZE * size * camDistLODFactor
  else 10

/-- **`Patch::RecursTessellate`** with `curTriPool` the pool of thread `thr`; `none` means the
recursion has not returned within `fuel` nested calls. -/
def RecursTessellate (currentVariance : Nat → F) (varianceMaxLimit camDistLODFactor : F)
    (thr : Nat) : Nat → Mesh → TriPtr → Int2 → Int2 → Int2 → Nat → Option Mesh
  | 0, _, _, _, _, _, _ => none
  | fuel + 1, m, tri, left, right, apex, node =>
    -- bail if we can not tessellate further in at least one dimension
    if |left.x - right.x| ≤ 1 ∧ |left.y - right.y| ≤ 1 then some m else
    -- stop tesselation
    if triVariance PATCH_SIZE VARIANCE_DEPTH currentVariance varianceMaxLimit camDistLODFactor
        left right node ≤ 1 then some m else do
    let (m, _) ← Split thr fuel m tri
    match (m.node tri).LeftChild, (m.node tri).RightChild with
    | some lc, some rc =>
      -- triangle was split, also try to split its children
      let center : Int2 := ⟨(left.x + right.x) >>> 1, (left.y + right.y) >>> 1⟩
      let m ← RecursTessellate currentVariance varianceMaxLimit camDistLODFactor thr fuel m lc
        apex left center (node <<< 1)
      RecursTessellate currentVariance varianceMaxLimit camDistLODFactor thr fuel m rc
        right apex center ((node <<< 1) + 1)
    | _, _ => some m

/-- Lines 546-566: the camera-distance LOD factor and the variance ceiling of the patch at
`coors`, for the map's average height `avgHeight` and `float3::distance`. In the field `F`,
`300 / 0 = 0` where the float code gets infinity: at `viewRadius = 0` the factor is 1 here and 0
there for a camera off the midpoint, with the ceiling 0 in both. -/
def lodParams (SQUARE_SIZE : Nat) (avgHeight : F) (distance : Float3 F → Float3 F → F)
    (coors : Int2) (camPos : Float3 F) (viewRadius : Int) : F × F :=
  let midPos : Float3 F :=
    ⟨((coors.x + (PATCH_SIZE / 2 : Nat)) * SQUARE_SIZE : Int), avgHeight,
      ((coors.y + (PATCH_SIZE / 2 : Nat)) * SQUARE_SIZE : Int)⟩
  -- MAGIC NUMBER 1: scale factor to reduce LOD with camera distance
  let camDistLODFactor := distance midPos camPos
  let camDistLODFactor := camDistLODFactor * (300 / viewRadius)
  let camDistLODFactor := max 1 camDistLODFactor
  let camDistLODFactor := 1 / camDistLODFactor
  -- MAGIC NUMBER 2: regulates how deeply areas are tessellated by clamping variances to it
  (camDistLODFactor, viewRadius * (35 / 100))

/-- The two roots' walks of `Patch::Tessellate` (lines 568-586), for given LOD parameters. -/
def tessellateRoots (p : Patch F) (px pz thr fuel : Nat) (m : Mesh) : Option Mesh := do
  let c := p.coors
  let PS : Int := PATCH_SIZE
  -- split each of the base triangles
  let m ← RecursTessellate PATCH_SIZE VARIANCE_DEPTH p.varianceLeft p.varianceMaxLimit
    p.camDistLODFactor thr fuel m (.baseLeft px pz) ⟨c.x, c.y + PS⟩ ⟨c.x + PS, c.y⟩ ⟨c.x, c.y⟩ 1
  RecursTessellate PATCH_SIZE VARIANCE_DEPTH p.varianceRight p.varianceMaxLimit
    p.camDistLODFactor thr fuel m (.baseRight px pz) ⟨c.x + PS, c.y⟩ ⟨c.x, c.y + PS⟩
    ⟨c.x + PS, c.y + PS⟩ 1

/-- **`Patch::Tessellate`** of the patch `p` at grid index `(px, pz)` on worker thread `thr`:
the patch with its LOD parameters set, the mesh, and whether the pool still has nodes. -/
def Tessellate (SQUARE_SIZE : Nat) (avgHeight : F) (distance : Float3 F → Float3 F → F)
    (p : Patch F) (px pz : Nat) (camPos : Float3 F) (viewRadius : Int) (thr fuel : Nat)
    (m : Mesh) : Option (Patch F × Mesh × Bool) := do
  let (f, lim) := lodParams PATCH_SIZE SQUARE_SIZE avgHeight distance p.coors camPos viewRadius
  let p := { p with isTesselated := true, camDistLODFactor := f, varianceMaxLimit := lim }
  let m ← tessellateRoots PATCH_SIZE VARIANCE_DEPTH p px pz thr fuel m
  pure (p, m, !(m.pools thr).OutOfNodes)

end Tessellate

end SpringRoam
