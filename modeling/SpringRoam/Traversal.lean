import SpringRoam.Variance
import SpringRoam.Indices
import SpringRoam.SplitSpec

/-!
# The four walks agree

`RecursTessellate` works in map coordinates and reads the variance at a heap index;
`RecursComputeVariance` works in patch coordinates and writes at a heap index;
`RecursGenIndices` and `RecursGenBorderVertices` work in patch coordinates and keep no index.
This module shows they are four walks of one tree of triangles:

* `tessellatePaths` is the tessellation stated by child paths: the node at path `π` below the
  root triangle `T` works on `T.descend π` and reads the variance of `π` while its depth is
  below `VARIANCE_DEPTH`; `recursTessellate_descend` shows `RecursTessellate` is that walk
  reading index `heapIdx 1 π`;
* `tessellateRoots_eq`: `Tessellate` starts from the roots of `rootTri` moved to the patch's
  `coors`, the triangles `GenerateIndices` and `ComputeVariance` start from;
* `tessellateRoots_computeVariance`: for `PATCH_SIZE = 2 ^ p` and
  `VARIANCE_DEPTH ≤ 2p - 1`, after `ComputeVariance` the tessellation reads, for the node at
  `π`, the variance of exactly the triangle it works on, whatever the arrays held before.
-/

namespace SpringRoam

section Traversal

variable {F : Type} [LinearOrderedField F] (PATCH_SIZE VARIANCE_DEPTH : Nat)

/-- The tessellation walk below the root triangle `T`, by child paths: the node at path `π`
works on `T.descend π` and reads the variance `variance π` while `π` is shorter than
`VARIANCE_DEPTH`. -/
def tessellatePaths (variance : List Bool → F) (varianceMaxLimit camDistLODFactor : F)
    (thr : Nat) (T : Tri) : Nat → Mesh → TriPtr → List Bool → Option Mesh
  | 0, _, _, _ => none
  | fuel + 1, m, tri, π =>
    let t := T.descend π
    if t.spanX ≤ 1 ∧ t.spanY ≤ 1 then some m else
    if (if π.length < VARIANCE_DEPTH then
          min (variance π) varianceMaxLimit * PATCH_SIZE * max t.spanX t.spanY * camDistLODFactor
        else 10) ≤ 1 then some m else do
    let (m, _) ← Split thr fuel m tri
    match (m.node tri).LeftChild, (m.node tri).RightChild with
    | some lc, some rc =>
      let m ← tessellatePaths variance varianceMaxLimit camDistLODFactor thr T fuel m lc
        (π ++ [false])
      tessellatePaths variance varianceMaxLimit camDistLODFactor thr T fuel m rc (π ++ [true])
    | _, _ => some m

variable {PATCH_SIZE VARIANCE_DEPTH}

theorem tessellatePaths_congr {V V' : List Bool → F}
    (hV : ∀ σ : List Bool, σ.length < VARIANCE_DEPTH → V σ = V' σ)
    (lim f : F) (thr : Nat) (T : Tri) :
    ∀ fuel m tri π, tessellatePaths PATCH_SIZE VARIANCE_DEPTH V lim f thr T fuel m tri π =
      tessellatePaths PATCH_SIZE VARIANCE_DEPTH V' lim f thr T fuel m tri π := by
  intro fuel
  induction fuel with
  | zero => intro _ _ _; rfl
  | succ fuel ih =>
    intro m tri π
    have hv : (if π.length < VARIANCE_DEPTH then V π else 0) =
        (if π.length < VARIANCE_DEPTH then V' π else 0) := by
      split <;> simp_all
    simp only [tessellatePaths, ih]
    by_cases hd : π.length < VARIANCE_DEPTH
    · simp only [hd, if_true, hV π hd]
    · simp only [hd, if_false]

theorem heapIdx_one_lt_two_pow_iff (π : List Bool) (k : Nat) :
    heapIdx 1 π < 2 ^ k ↔ π.length < k := by
  obtain ⟨h₁, h₂⟩ := heapIdx_bounds π 1
  rw [mul_one] at h₁
  constructor
  · intro h
    by_contra hk
    have := Nat.pow_le_pow_right two_pos (not_lt.mp hk)
    omega
  · intro h
    have := Nat.pow_le_pow_right two_pos h
    rw [pow_succ] at this
    omega

theorem triVariance_descend (cv : Nat → F) (lim f : F) (T : Tri) (π : List Bool) :
    triVariance PATCH_SIZE VARIANCE_DEPTH cv lim f (T.descend π).left (T.descend π).right
      (heapIdx 1 π) =
    if π.length < VARIANCE_DEPTH then
      min (cv (heapIdx 1 π)) lim * PATCH_SIZE *
        max (T.descend π).spanX (T.descend π).spanY * f
    else 10 := by
  simp only [triVariance, Nat.one_shiftLeft, heapIdx_one_lt_two_pow_iff, Tri.spanX, Tri.spanY,
    abs_eq_max_neg, neg_sub]

/-- **`RecursTessellate` on the node at path `π` below `T` works on `T.descend π` and reads
heap index `heapIdx 1 π`.** -/
theorem recursTessellate_descend (cv : Nat → F) (lim f : F) (thr : Nat) (T : Tri) :
    ∀ fuel m tri π,
    RecursTessellate PATCH_SIZE VARIANCE_DEPTH cv lim f thr fuel m tri (T.descend π).left
      (T.descend π).right (T.descend π).apex (heapIdx 1 π) =
    tessellatePaths PATCH_SIZE VARIANCE_DEPTH (fun σ => cv (heapIdx 1 σ)) lim f thr T fuel m tri
      π := by
  intro fuel
  induction fuel with
  | zero => intro _ _ _; rfl
  | succ fuel ih =>
    intro m tri π
    have h₀ : ∀ m lc, RecursTessellate PATCH_SIZE VARIANCE_DEPTH cv lim f thr fuel m lc
        (T.descend π).apex (T.descend π).left (T.descend π).center (heapIdx 1 π <<< 1) =
        tessellatePaths PATCH_SIZE VARIANCE_DEPTH (fun σ => cv (heapIdx 1 σ)) lim f thr T fuel
          m lc (π ++ [false]) := fun m lc => by
      rw [← ih, Tri.descend_concat, heapIdx_append_singleton]; rfl
    have h₁ : ∀ m rc, RecursTessellate PATCH_SIZE VARIANCE_DEPTH cv lim f thr fuel m rc
        (T.descend π).right (T.descend π).apex (T.descend π).center ((heapIdx 1 π <<< 1) + 1) =
        tessellatePaths PATCH_SIZE VARIANCE_DEPTH (fun σ => cv (heapIdx 1 σ)) lim f thr T fuel
          m rc (π ++ [true]) := fun m rc => by
      rw [← ih, Tri.descend_concat, heapIdx_append_singleton]; rfl
    rw [RecursTessellate, tessellatePaths, triVariance_descend]
    simp only [Tri.center] at h₀ h₁
    simp only [Tri.spanX, Tri.spanY]
    refine ite_congr rfl (fun _ => rfl) fun _ => ite_congr rfl (fun _ => rfl) fun _ =>
      bind_congr fun d => ?_
    -- the two definitions match on the children with matchers of their own
    dsimp only
    cases (d.1.node tri).LeftChild <;> cases (d.1.node tri).RightChild <;> simp only [h₀, h₁]

theorem tessellateRoots_eq (patch : Patch F) (px pz thr fuel : Nat) (m : Mesh) :
    tessellateRoots PATCH_SIZE VARIANCE_DEPTH patch px pz thr fuel m =
    (tessellatePaths PATCH_SIZE VARIANCE_DEPTH (fun σ => patch.variance false (heapIdx 1 σ))
        patch.varianceMaxLimit patch.camDistLODFactor thr
        ((rootTri PATCH_SIZE false).shift patch.coors) fuel m (.baseLeft px pz) []).bind
      fun m => tessellatePaths PATCH_SIZE VARIANCE_DEPTH
        (fun σ => patch.variance true (heapIdx 1 σ)) patch.varianceMaxLimit
        patch.camDistLODFactor thr ((rootTri PATCH_SIZE true).shift patch.coors) fuel m
        (.baseRight px pz) [] := by
  rw [← recursTessellate_descend, ← funext fun m => recursTessellate_descend _ _ _ _ _ fuel m
    (.baseRight px pz) []]
  simp only [tessellateRoots, Tri.descend_nil, rootTri, Tri.shift, zero_add,
    add_comm (PATCH_SIZE : Int), Patch.variance, heapIdx]
  rfl

set_option maxRecDepth 100000 in
/-- The walk from the roots of one patch reaches past its neighbors: on a `4 × 1` grid of
patches of side 8, `Tessellate` of patch `(0, 0)` and `Tessellate` of patch `(3, 0)`, each
from the fresh grid, both write `baseLeft` of patch `(2, 0)`, though the two patches are
neither neighbors nor share one. -/
theorem tessellate_writes_two_patches_away :
    (Tessellate 8 7 1 0 (fun _ _ => 0) (hotPatch ⟨0, 0⟩ [1] [1, 2]) 0 0 ⟨0, 0, 0⟩ 4000 0 30
        (freshMesh 4 1 fun _ => 1000)).map (fun r =>
      decide (r.2.1.node (.baseLeft 2 0) ≠ (freshMesh 4 1 fun _ => 1000).node (.baseLeft 2 0))) =
      some true ∧
    (Tessellate 8 7 1 0 (fun _ _ => 0) (hotPatch ⟨24, 0⟩ [1, 2] []) 3 0 ⟨0, 0, 0⟩ 4000 1 30
        (freshMesh 4 1 fun _ => 1000)).map (fun r =>
      decide (r.2.1.node (.baseLeft 2 0) ≠ (freshMesh 4 1 fun _ => 1000).node (.baseLeft 2 0))) =
      some true := by
  constructor <;> with_unfolding_all decide

theorem generateIndices_eq (fuel : Nat) (m : Mesh) (px pz : Nat) :
    GenerateIndices PATCH_SIZE fuel m px pz = (do
      let a ← leafPaths fuel m (.baseLeft px pz)
      let b ← leafPaths fuel m (.baseRight px pz)
      pure (a.flatMap (fun ρ => triIndices PATCH_SIZE ((rootTri PATCH_SIZE false).descend ρ)) ++
        b.flatMap fun ρ => triIndices PATCH_SIZE ((rootTri PATCH_SIZE true).descend ρ))) := by
  have h₀ := recursGenIndices_eq PATCH_SIZE fuel m (.baseLeft px pz) (rootTri PATCH_SIZE false)
  have h₁ := recursGenIndices_eq PATCH_SIZE fuel m (.baseRight px pz) (rootTri PATCH_SIZE true)
  simp only [rootTri] at h₀ h₁
  simp only [GenerateIndices, h₀, h₁]
  cases leafPaths fuel m (.baseLeft px pz) <;> cases leafPaths fuel m (.baseRight px pz) <;> rfl

set_option maxRecDepth 100000 in
/-- A frame on a `5 × 2` grid of patches of side 4, two workers with pools of 36 nodes: after
four `Tessellate` calls, the node at path `[false, true, true, false]` below `baseLeft` of
patch `(1, 0)`, whose hypotenuse runs from `(1, 3)` to `(2, 2)`, is a branch, and
`GenerateIndices` emits the degenerate triangle `[11, 11, 16]` below it. -/
theorem generateIndices_degenerate :
    (rootTri 4 false).descend [false, true, true, false] = ⟨⟨1, 3⟩, ⟨2, 2⟩, ⟨1, 2⟩⟩ ∧
    (do
      let (_, m, _) ← Tessellate 4 5 1 0 (fun _ _ => 0) (hotPatch ⟨16, 4⟩ [1, 2, 4, 5] []) 4 1
        ⟨0, 0, 0⟩ 4000 0 20 (freshMesh 5 2 fun _ => 36)
      let (_, m, _) ← Tessellate 4 5 1 0 (fun _ _ => 0) (hotPatch ⟨8, 0⟩ [1, 2] []) 2 0
        ⟨0, 0, 0⟩ 4000 0 20 m
      let (_, m, _) ← Tessellate 4 5 1 0 (fun _ _ => 0) (hotPatch ⟨4, 4⟩ [1, 3] []) 1 1
        ⟨0, 0, 0⟩ 4000 1 20 m
      let (_, m, _) ← Tessellate 4 5 1 0 (fun _ _ => 0) (hotPatch ⟨4, 0⟩ [1, 2, 5] [1, 3, 6, 13])
        1 0 ⟨0, 0, 0⟩ 4000 1 20 m
      let t ← m.nodeAt (.baseLeft 1 0) [false, true, true, false]
      let l ← GenerateIndices 4 20 m 1 0
      pure ((m.node t).IsLeaf, decide ([11, 11, 16] ∈ l.toChunks 3))) = some (false, true) := by
  constructor
  · decide
  · with_unfolding_all decide

section PowerOfTwo

variable {p : Nat}

/-- **After `ComputeVariance`, the tessellation of a patch of side `2 ^ p` reads, for the node
at path `π`, the variance of the very triangle it works on**, moved back to patch
coordinates: the largest error over its computed subtree, floored, whatever the variance
arrays held before, provided `VARIANCE_DEPTH ≤ 2p - 1`. -/
theorem tessellateRoots_computeVariance (hVD : VARIANCE_DEPTH ≤ 2 * p - 1) {fuel : Nat}
    {patch q : Patch F} (h : ComputeVariance (2 ^ p) VARIANCE_DEPTH fuel patch = some q)
    (lim f : F) (px pz thr fuel' : Nat) (m : Mesh) :
    tessellateRoots (2 ^ p) VARIANCE_DEPTH { q with varianceMaxLimit := lim, camDistLODFactor := f }
      px pz thr fuel' m =
    (tessellatePaths (2 ^ p) VARIANCE_DEPTH
        (fun π => max (1 / 1000) (subtreeError (GetHeight (2 ^ p) patch.vertices) (2 * p)
          ((rootTri (2 ^ p) false).descend π)))
        lim f thr ((rootTri (2 ^ p) false).shift q.coors) fuel' m (.baseLeft px pz) []).bind
      fun m => tessellatePaths (2 ^ p) VARIANCE_DEPTH
        (fun π => max (1 / 1000) (subtreeError (GetHeight (2 ^ p) patch.vertices) (2 * p)
          ((rootTri (2 ^ p) true).descend π)))
        lim f thr ((rootTri (2 ^ p) true).shift q.coors) fuel' m (.baseRight px pz) [] := by
  have hV : ∀ r (σ : List Bool), σ.length < VARIANCE_DEPTH → q.variance r (heapIdx 1 σ) =
      max (1 / 1000) (subtreeError (GetHeight (2 ^ p) patch.vertices) (2 * p)
        ((rootTri (2 ^ p) r).descend σ)) := fun r σ hσ =>
    computeVariance_entry h r (by omega) ((heapIdx_one_lt_two_pow_iff σ _).mpr hσ) (2 * p)
      (bounded_descend r _ σ (by omega) (by omega))
  rw [tessellateRoots_eq, cast_two_pow]
  simp only [Patch.variance] at hV ⊢
  rw [tessellatePaths_congr (hV false)]
  simp only [tessellatePaths_congr (hV true)]

end PowerOfTwo

variable (PATCH_SIZE VARIANCE_DEPTH)

/-- **The four walks agree.** `RecursTessellate` on the node at path `π` below a triangle `T`
works on `T.descend π` and reads heap index `heapIdx 1 π`; `Tessellate` starts from `rootTri`
moved to the patch's `coors`, and moving commutes with every walk; `GenerateIndices` and
`RecursGenBorderVertices` pass `t.descend ρ` for the node at `ρ` below `t`, and start from
`rootTri`; for `PATCH_SIZE = 2 ^ p` and `VARIANCE_DEPTH ≤ 2p - 1`, every variance the
tessellation after `ComputeVariance` reads is the one `ComputeVariance` computed for the same
triangle. -/
theorem traversal_agreement :
    (∀ (cv : Nat → F) (lim f : F) (thr : Nat) (T : Tri) (fuel : Nat) (m : Mesh) (tri : TriPtr)
        (π : List Bool),
      RecursTessellate PATCH_SIZE VARIANCE_DEPTH cv lim f thr fuel m tri (T.descend π).left
        (T.descend π).right (T.descend π).apex (heapIdx 1 π) =
      tessellatePaths PATCH_SIZE VARIANCE_DEPTH (fun σ => cv (heapIdx 1 σ)) lim f thr T fuel m
        tri π) ∧
    (∀ (patch : Patch F) (px pz thr fuel : Nat) (m : Mesh),
      tessellateRoots PATCH_SIZE VARIANCE_DEPTH patch px pz thr fuel m =
      (tessellatePaths PATCH_SIZE VARIANCE_DEPTH (fun σ => patch.variance false (heapIdx 1 σ))
          patch.varianceMaxLimit patch.camDistLODFactor thr
          ((rootTri PATCH_SIZE false).shift patch.coors) fuel m (.baseLeft px pz) []).bind
        fun m => tessellatePaths PATCH_SIZE VARIANCE_DEPTH
          (fun σ => patch.variance true (heapIdx 1 σ)) patch.varianceMaxLimit
          patch.camDistLODFactor thr ((rootTri PATCH_SIZE true).shift patch.coors) fuel m
          (.baseRight px pz) []) ∧
    (∀ (r : Bool) (c : Int2) (π : List Bool),
      ((rootTri PATCH_SIZE r).shift c).descend π = ((rootTri PATCH_SIZE r).descend π).shift c) ∧
    (∀ (fuel : Nat) (m : Mesh) (px pz : Nat),
      GenerateIndices PATCH_SIZE fuel m px pz = (do
        let a ← leafPaths fuel m (.baseLeft px pz)
        let b ← leafPaths fuel m (.baseRight px pz)
        pure (a.flatMap (fun ρ => triIndices PATCH_SIZE ((rootTri PATCH_SIZE false).descend ρ)) ++
          b.flatMap fun ρ => triIndices PATCH_SIZE ((rootTri PATCH_SIZE true).descend ρ)))) ∧
    (∀ (fuel : Nat) (m : Mesh) (tri : TriPtr) (t : Tri) (depth : Int2),
      RecursGenBorderVertices PATCH_SIZE fuel m tri t.left t.right t.apex depth =
        (borderWalk fuel m tri depth).map fun ls => ls.flatMap fun l =>
          leafBorderVertices PATCH_SIZE (t.descend l.1).left (t.descend l.1).right
            (t.descend l.1).apex l.2) ∧
    (∀ p, PATCH_SIZE = 2 ^ p → VARIANCE_DEPTH ≤ 2 * p - 1 →
      ∀ (fuel : Nat) (patch q : Patch F),
      ComputeVariance PATCH_SIZE VARIANCE_DEPTH fuel patch = some q →
      ∀ (lim f : F) (px pz thr fuel' : Nat) (m : Mesh),
      tessellateRoots PATCH_SIZE VARIANCE_DEPTH
        { q with varianceMaxLimit := lim, camDistLODFactor := f } px pz thr fuel' m =
      (tessellatePaths PATCH_SIZE VARIANCE_DEPTH
          (fun π => max (1 / 1000) (subtreeError (GetHeight PATCH_SIZE patch.vertices) (2 * p)
            ((rootTri (2 ^ p) false).descend π)))
          lim f thr ((rootTri (2 ^ p) false).shift q.coors) fuel' m (.baseLeft px pz) []).bind
        fun m => tessellatePaths PATCH_SIZE VARIANCE_DEPTH
          (fun π => max (1 / 1000) (subtreeError (GetHeight PATCH_SIZE patch.vertices) (2 * p)
            ((rootTri (2 ^ p) true).descend π)))
          lim f thr ((rootTri (2 ^ p) true).shift q.coors) fuel' m (.baseRight px pz) []) :=
  ⟨recursTessellate_descend, tessellateRoots_eq, fun r c π => Tri.descend_shift _ c π,
    generateIndices_eq, recursGenBorderVertices_eq PATCH_SIZE,
    fun _ hPS hVD _ _ _ h => by subst hPS; exact tessellateRoots_computeVariance hVD h⟩

/-- The patch `shorePatch` of side 4, with 8 stored variances per half. -/
theorem traversal_agreement_init :
    ∃ q : Patch ℚ, ComputeVariance (2 ^ 2) 3 5 shorePatch = some q ∧
      ∀ (lim f : ℚ) (px pz thr fuel' : Nat) (m : Mesh),
      tessellateRoots (2 ^ 2) 3 { q with varianceMaxLimit := lim, camDistLODFactor := f }
        px pz thr fuel' m =
      (tessellatePaths (2 ^ 2) 3
          (fun π => max (1 / 1000) (subtreeError (GetHeight (2 ^ 2) shorePatch.vertices)
            (2 * 2) ((rootTri (2 ^ 2) false).descend π)))
          lim f thr ((rootTri (2 ^ 2) false).shift q.coors) fuel' m (.baseLeft px pz) []).bind
        fun m => tessellatePaths (2 ^ 2) 3
          (fun π => max (1 / 1000) (subtreeError (GetHeight (2 ^ 2) shorePatch.vertices)
            (2 * 2) ((rootTri (2 ^ 2) true).descend π)))
          lim f thr ((rootTri (2 ^ 2) true).shift q.coors) fuel' m (.baseRight px pz) [] := by
  have hs : (ComputeVariance (2 ^ 2) 3 5 shorePatch).isSome := computeVariance_isSome _ (by decide)
  obtain ⟨q, hq⟩ := Option.isSome_iff_exists.mp hs
  exact ⟨q, hq, (traversal_agreement (2 ^ 2) 3).2.2.2.2.2 2 rfl (by decide) 5 _ q hq⟩

end Traversal

end SpringRoam
