import SpringRoam.Node

/-!
# A grid of freshly reset patches

`Patch::Reset` detaches a patch's two roots from everything but each other. The links between
the roots of adjacent patches are made by the mesh drawer, outside the excerpt: `linkedRoot`
models them from the spec, and `freshMesh` is the state every frame's tessellation starts from.

The geometry decides which edge is which: `baseLeft` has apex `(0, 0)`, left `(0, PS)` and right
`(PS, 0)`, so its left leg is the west side and its right leg the north side; `baseRight` has
apex `(PS, PS)`, left `(PS, 0)` and right `(0, PS)`, so its left leg is the east side and its
right leg the south side.
-/

namespace SpringRoam

namespace Mesh

/-- **`Patch::Reset`** of the patch at `(px, pz)`: both roots are default nodes again, each the
other's base neighbor. -/
def patchReset (m : Mesh) (px pz : Nat) : Mesh :=
  (m.set (.baseLeft px pz) { BaseNeighbor := some (.baseRight px pz) }).set (.baseRight px pz)
    { BaseNeighbor := some (.baseLeft px pz) }

end Mesh

/-- Modelled from the spec: the root links of a freshly reset grid of `numX × numZ` patches,
as the mesh drawer (outside the excerpt) sets them. Each root names the root of the adjacent
patch across each of its legs, `nullptr` on the map border: west and east sides are joined
left leg to left leg, north and south sides right leg to right leg. -/
def linkedRoot (numX numZ : Nat) : TriPtr → TriTreeNode
  | .baseLeft px pz =>
    { BaseNeighbor := some (.baseRight px pz)
      LeftNeighbor := if 0 < px then some (.baseRight (px - 1) pz) else none
      RightNeighbor := if 0 < pz then some (.baseRight px (pz - 1)) else none }
  | .baseRight px pz =>
    { BaseNeighbor := some (.baseLeft px pz)
      LeftNeighbor := if px + 1 < numX then some (.baseLeft (px + 1) pz) else none
      RightNeighbor := if pz + 1 < numZ then some (.baseLeft px (pz + 1)) else none }
  | .pool _ _ => {}

/-- The mesh of a freshly reset, linked grid of `numX × numZ` patches whose worker threads
have pools of sizes `poolSize`, all with their cursor at zero. -/
def freshMesh (numX numZ : Nat) (poolSize : Nat → Nat) : Mesh where
  node := linkedRoot numX numZ
  pools := fun thr => { size := poolSize thr }

end SpringRoam
