import SpringRoam.Geometry
import SpringRoam.Tessellate

/-!
# `Patch::GenerateIndices` and `Patch::GenerateBorderVertices`

Both walk a patch's trees from the roots in patch coordinates, halving the hypotenuse at each
branch as `RecursTessellate` does. A vertex is named by its index `x + y·(PATCH_SIZE + 1)` into
the patch's vertex array; a border vertex is that index with a flag telling the opaque vertex
at the grid height (`true`, colour `white`) from the transparent one pushed down to `-400`
(`false`, colour `trans`).

The walks are also given by the paths they follow (`leafPaths`, `borderWalk`), which read only
the tree: `recursGenIndices_eq` and `recursGenBorderVertices_eq` show that the triangle either
recursion passes for the node at path `ρ` below a triangle `t` is `t.descend ρ`.
-/

namespace SpringRoam

section Indices

variable (PATCH_SIZE : Nat)

/-- The index of the grid point `v` in the patch's vertex array. -/
def vertexIndex (v : Int2) : Int := v.x + v.y * (PATCH_SIZE + 1)

/-- **`Patch::RecursGenIndices`**: the indices pushed for the subtree at `tri`, apex first.
`none` means the recursion has not returned within `fuel` nested calls, or it dereferenced a
null child of a branch. -/
def RecursGenIndices : Nat → Mesh → TriPtr → Int2 → Int2 → Int2 → Option (List Int)
  | 0, _, _, _, _, _ => none
  | fuel + 1, m, tri, left, right, apex =>
    if (m.node tri).IsLeaf then
      some [vertexIndex PATCH_SIZE apex, vertexIndex PATCH_SIZE left,
        vertexIndex PATCH_SIZE right]
    else
      let center : Int2 := ⟨(left.x + right.x) >>> 1, (left.y + right.y) >>> 1⟩
      match (m.node tri).LeftChild, (m.node tri).RightChild with
      | some lc, some rc => do
        let a ← RecursGenIndices fuel m lc apex left center
        let b ← RecursGenIndices fuel m rc right apex center
        pure (a ++ b)
      | _, _ => none

/-- **`Patch::GenerateIndices`** of the patch at grid index `(px, pz)`. -/
def GenerateIndices (fuel : Nat) (m : Mesh) (px pz : Nat) : Option (List Int) := do
  let PS : Int := PATCH_SIZE
  let a ← RecursGenIndices PATCH_SIZE fuel m (.baseLeft px pz) ⟨0, PS⟩ ⟨PS, 0⟩ ⟨0, 0⟩
  let b ← RecursGenIndices PATCH_SIZE fuel m (.baseRight px pz) ⟨PS, 0⟩ ⟨0, PS⟩ ⟨PS, PS⟩
  pure (a ++ b)

/-- Lines 373-410: the six vertices of the skirt below a leaf on the border, two triangles
hanging from the leaf's edge on the side. At even depth that edge is the hypotenuse
`left`–`rght`; at odd depth it is the leg selected by `depth.y`. -/
def leafBorderVertices (left rght apex depth : Int2) : List (Int × Bool) :=
  let v1 := vertexIndex PATCH_SIZE apex
  let v2 := vertexIndex PATCH_SIZE left
  let v3 := vertexIndex PATCH_SIZE rght
  if depth.x % 2 = 0 then [(v2, true), (v2, false), (v3, true), (v2, false), (v3, false), (v3, true)]
  -- left child
  else if depth.y ≠ 0 then
    [(v1, true), (v1, false), (v2, true), (v1, false), (v2, false), (v2, true)]
  -- right child
  else [(v3, true), (v3, false), (v1, true), (v3, false), (v1, false), (v1, true)]

/-- **`Patch::RecursGenBorderVertices`**: the border vertices pushed for the subtree at `tri`.
`depth` is the `int2` of the source: `depth.x` the depth, counted from one, and `depth.y` the
side flag, with `!depth.y` as `1` or `0` and `depth.x & 1` as `depth.x % 2`. `none` means the
recursion has not returned within `fuel` nested calls, or it dereferenced a null child. -/
def RecursGenBorderVertices :
    Nat → Mesh → TriPtr → Int2 → Int2 → Int2 → Int2 → Option (List (Int × Bool))
  | 0, _, _, _, _, _, _ => none
  | fuel + 1, m, tri, left, rght, apex, depth =>
    if (m.node tri).IsLeaf then some (leafBorderVertices PATCH_SIZE left rght apex depth) else
    let center : Int2 := ⟨(left.x + rght.x) >>> 1, (left.y + rght.y) >>> 1⟩
    -- at even depths, descend down left *and* right children since both are on the patch-edge
    if depth.x % 2 = 0 then
      match (m.node tri).LeftChild, (m.node tri).RightChild with
      | some lc, some rc => do
        let a ← RecursGenBorderVertices fuel m lc apex left center
          ⟨depth.x + 1, if depth.y = 0 then 1 else 0⟩
        let b ← RecursGenBorderVertices fuel m rc rght apex center ⟨depth.x + 1, depth.y⟩
        pure (a ++ b)
      | _, _ => none
    -- at odd depths (where only one triangle is on the edge), always force a left-bias
    else if depth.y ≠ 0 then
      match (m.node tri).LeftChild with
      | some lc => RecursGenBorderVertices fuel m lc apex left center ⟨depth.x + 1, 1⟩
      | none => none
    else
      match (m.node tri).RightChild with
      | some rc => RecursGenBorderVertices fuel m rc rght apex center ⟨depth.x + 1, 1⟩
      | none => none

/-- **`Patch::GenerateBorderVertices`** of the patch `p` at grid index `(px, pz)`: nothing
happens unless the patch was tessellated since the last call; otherwise the flag is cleared
and the skirts of the roots' sides on the map edge (a missing neighbor) replace
`borderVertices`. -/
def GenerateBorderVertices {F : Type} (fuel : Nat) (p : Patch F) (px pz : Nat) (m : Mesh)
    (borderVertices : List (Int × Bool)) : Option (Patch F × List (Int × Bool)) :=
  if !p.isTesselated then some (p, borderVertices) else do
  let p := { p with isTesselated := false }
  let PS : Int := PATCH_SIZE
  let bl := m.node (.baseLeft px pz)
  let br := m.node (.baseRight px pz)
  -- left border
  let a ← if bl.LeftNeighbor = none then
    RecursGenBorderVertices PATCH_SIZE fuel m (.baseLeft px pz) ⟨0, PS⟩ ⟨PS, 0⟩ ⟨0, 0⟩ ⟨1, 1⟩
    else pure []
  -- right border
  let b ← if bl.RightNeighbor = none then
    RecursGenBorderVertices PATCH_SIZE fuel m (.baseLeft px pz) ⟨0, PS⟩ ⟨PS, 0⟩ ⟨0, 0⟩ ⟨1, 0⟩
    else pure []
  -- bottom border
  let c ← if br.RightNeighbor = none then
    RecursGenBorderVertices PATCH_SIZE fuel m (.baseRight px pz) ⟨PS, 0⟩ ⟨0, PS⟩ ⟨PS, PS⟩ ⟨1, 0⟩
    else pure []
  -- top border
  let d ← if br.LeftNeighbor = none then
    RecursGenBorderVertices PATCH_SIZE fuel m (.baseRight px pz) ⟨PS, 0⟩ ⟨0, PS⟩ ⟨PS, PS⟩ ⟨1, 1⟩
    else pure []
  pure (p, a ++ b ++ c ++ d)

/-! ### The walks as paths -/

/-- The paths to the leaves below `tri`, left to right. -/
def leafPaths : Nat → Mesh → TriPtr → Option (List (List Bool))
  | 0, _, _ => none
  | fuel + 1, m, tri =>
    if (m.node tri).IsLeaf then some [[]] else
    match (m.node tri).LeftChild, (m.node tri).RightChild with
    | some lc, some rc => do
      let a ← leafPaths fuel m lc
      let b ← leafPaths fuel m rc
      pure (a.map (false :: ·) ++ b.map (true :: ·))
    | _, _ => none

/-- The leaves `RecursGenBorderVertices` reaches below `tri` started with `depth`: each one's
path and the `depth` it is reached with. -/
def borderWalk : Nat → Mesh → TriPtr → Int2 → Option (List (List Bool × Int2))
  | 0, _, _, _ => none
  | fuel + 1, m, tri, depth =>
    if (m.node tri).IsLeaf then some [([], depth)] else
    if depth.x % 2 = 0 then
      match (m.node tri).LeftChild, (m.node tri).RightChild with
      | some lc, some rc => do
        let a ← borderWalk fuel m lc ⟨depth.x + 1, if depth.y = 0 then 1 else 0⟩
        let b ← borderWalk fuel m rc ⟨depth.x + 1, depth.y⟩
        pure (a.map (fun l => (false :: l.1, l.2)) ++ b.map (fun l => (true :: l.1, l.2)))
      | _, _ => none
    else if depth.y ≠ 0 then
      match (m.node tri).LeftChild with
      | some lc => (borderWalk fuel m lc ⟨depth.x + 1, 1⟩).map
          (List.map fun l => (false :: l.1, l.2))
      | none => none
    else
      match (m.node tri).RightChild with
      | some rc => (borderWalk fuel m rc ⟨depth.x + 1, 1⟩).map
          (List.map fun l => (true :: l.1, l.2))
      | none => none

/-- The indices of a triangle, apex first. -/
def triIndices (t : Tri) : List Int :=
  [vertexIndex PATCH_SIZE t.apex, vertexIndex PATCH_SIZE t.left, vertexIndex PATCH_SIZE t.right]

/-- **`RecursGenIndices` emits, for each leaf at path `ρ` below `tri`, the corners of
`t.descend ρ`.** -/
theorem recursGenIndices_eq :
    ∀ (fuel : Nat) (m : Mesh) (tri : TriPtr) (t : Tri),
    RecursGenIndices PATCH_SIZE fuel m tri t.left t.right t.apex =
      (leafPaths fuel m tri).map fun ps => ps.flatMap fun ρ => triIndices PATCH_SIZE (t.descend ρ) := by
  intro fuel
  induction fuel with
  | zero => intro _ _ _; rfl
  | succ fuel ih =>
    intro m tri t
    simp only [RecursGenIndices, leafPaths]
    split
    · rfl
    · split
      · rename_i lc rc _ _
        have h₀ := ih m lc (t.child false)
        have h₁ := ih m rc (t.child true)
        simp only [Tri.child, Tri.center] at h₀ h₁
        rw [h₀, h₁]
        cases leafPaths fuel m lc <;> cases leafPaths fuel m rc <;>
          simp [List.flatMap_append, List.flatMap_map, Tri.child, Tri.center]
      · rfl

/-- **`RecursGenBorderVertices` emits, for each leaf `borderWalk` reaches at path `ρ` with
`depth`, the skirt of `t.descend ρ`.** -/
theorem recursGenBorderVertices_eq :
    ∀ (fuel : Nat) (m : Mesh) (tri : TriPtr) (t : Tri) (depth : Int2),
    RecursGenBorderVertices PATCH_SIZE fuel m tri t.left t.right t.apex depth =
      (borderWalk fuel m tri depth).map fun ls => ls.flatMap fun l =>
        leafBorderVertices PATCH_SIZE (t.descend l.1).left (t.descend l.1).right
          (t.descend l.1).apex l.2 := by
  intro fuel
  induction fuel with
  | zero => intro _ _ _ _; rfl
  | succ fuel ih =>
    intro m tri t depth
    simp only [RecursGenBorderVertices, borderWalk]
    split
    · simp
    · split
      · split
        · rename_i lc rc _ _
          have h₀ := ih m lc (t.child false) ⟨depth.x + 1, if depth.y = 0 then 1 else 0⟩
          have h₁ := ih m rc (t.child true) ⟨depth.x + 1, depth.y⟩
          simp only [Tri.child, Tri.center] at h₀ h₁
          rw [h₀, h₁]
          cases borderWalk fuel m lc _ <;> cases borderWalk fuel m rc _ <;>
            simp [List.flatMap_append, List.flatMap_map, Tri.child, Tri.center]
        · rfl
      · split
        · split
          · rename_i lc _
            have h₀ := ih m lc (t.child false) ⟨depth.x + 1, 1⟩
            simp only [Tri.child, Tri.center] at h₀
            rw [h₀]
            cases borderWalk fuel m lc _ <;> simp [List.flatMap_map, Tri.child, Tri.center]
          · rfl
        · split
          · rename_i rc _
            have h₁ := ih m rc (t.child true) ⟨depth.x + 1, 1⟩
            simp only [Tri.child, Tri.center] at h₁
            rw [h₁]
            cases borderWalk fuel m rc _ <;> simp [List.flatMap_map, Tri.child, Tri.center]
          · rfl

end Indices

end SpringRoam
