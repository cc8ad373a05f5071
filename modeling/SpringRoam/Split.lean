import SpringRoam.Node

/-!
# `Patch::Split`

`Split` turns a leaf into a branch: it first force-splits a base neighbor that does not name
the leaf back, takes two nodes from the pool, links them into the mesh, and then either
cross-links them with the children of an already split base neighbor or splits that base
neighbor too, so that both halves of a diamond split together.

The three blocks of link surgery are named here (`Mesh.linkChildren`, `Mesh.relink`,
`Mesh.crossLink`) so that the recursion in `Split` reads as the C++ does.
-/

namespace SpringRoam

namespace Mesh

/-- Lines 236-257 for one neighbor `nb` of `tri`: the first of `nb`'s slots `base`, `s₂`, `s₃`
that names `tri` is repointed to `tri`'s new child `c`; when none does, the code's empty
"illegal neighbor" branch is taken. The left neighbor is searched in the order base, left,
right, the right neighbor in the order base, right, left. -/
def relink (m : Mesh) (nb tri c : TriPtr) (s₂ s₃ : Slot) : Mesh :=
  if (m.node nb).BaseNeighbor = some tri then m.setSlot nb .base (some c)
  else if (m.node nb).get s₂ = some tri then m.setSlot nb s₂ (some c)
  else if (m.node nb).get s₃ = some tri then m.setSlot nb s₃ (some c)
  else { m with illegalLinks := m.illegalLinks + 1 }

/-- Lines 229-257: the new children `lc`, `rc` of `tri` take the links they can get from
their parent, and `tri`'s left and right neighbors are repointed to them. -/
def linkChildren (m : Mesh) (tri lc rc : TriPtr) : Mesh :=
  let m := m.setSlot lc .base (m.node tri).LeftNeighbor
  let m := m.setSlot lc .left (some rc)
  let m := m.setSlot rc .base (m.node tri).RightNeighbor
  let m := m.setSlot rc .right (some lc)
  let m := match (m.node tri).LeftNeighbor with
    | some ln => m.relink ln tri lc .left .right
    | none => m
  match (m.node tri).RightNeighbor with
  | some rn => m.relink rn tri rc .right .left
  | none => m

/-- Lines 262-266: the children `lc`, `rc` of `tri` and `bl`, `br` of its split base
neighbor are linked across the shared hypotenuse. -/
def crossLink (m : Mesh) (lc rc bl br : TriPtr) : Mesh :=
  (((m.setSlot bl .right (some rc)).setSlot br .left (some lc)).setSlot lc .right
    (some br)).setSlot rc .left (some bl)

end Mesh

/-- **`Patch::Split`** with the pool of worker thread `thr` as `curTriPool`. The result is the
mesh and the returned `bool`; `none` means the recursion has not returned within `fuel`
nested calls. `tri->BaseNeighbor->IsBranch()` is the match on both children being present. -/
def Split (thr : Nat) : Nat → Mesh → TriPtr → Option (Mesh × Bool)
  | 0, _, _ => none
  | fuel + 1, m, tri =>
    -- we are already split, no need to do it again
    if !(m.node tri).IsLeaf then some (m, true) else do
    -- if this triangle is not in a proper diamond, force split our base-neighbor
    let m ← (match (m.node tri).BaseNeighbor with
      | some b =>
        if (m.node b).BaseNeighbor ≠ some tri then Prod.fst <$> Split thr fuel m b else pure m
      | none => pure m : Option Mesh)
    -- create children and link into mesh, or make this triangle a leaf
    match m.allocate thr with
    | (none, m) => pure (m.setChildren tri none none, false)
    | (some (lc, rc), m) =>
      let m := (m.setChildren tri (some lc) (some rc)).linkChildren tri lc rc
      -- link our base-neighbor to the new children
      match (m.node tri).BaseNeighbor with
      | some bn =>
        match (m.node bn).LeftChild, (m.node bn).RightChild with
        | some bl, some br => pure (m.crossLink lc rc bl br, true)
        | _, _ => do
          -- base neighbor (in a diamond with us) was not split yet, do so now
          let (m, _) ← Split thr fuel m bn
          pure (m, true)
      -- edge triangle, trivial case
      | none => pure ((m.setSlot lc .right none).setSlot rc .left none, true)

end SpringRoam
