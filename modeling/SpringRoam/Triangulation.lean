import SpringRoam.Frame
import SpringRoam.Border

/-!
# What `GenerateIndices` draws

`GenerateIndices` hands the renderer three vertex indices per leaf, apex first, and
`GenerateBorderVertices` six per skirt. This module shows what they draw:

* `emitted_indices_in_range` — for every mesh, every index either walk emits names a vertex of
  the patch's array of `(PATCH_SIZE + 1)²` grid points;
* `Tri.cross` — twice the signed area of a triangle in the order its corners are emitted;
* `leafPaths_cross` — the leaves below a right isosceles lattice triangle, down to depth `2p`,
  are wound like it and their areas add up to its area;
* `frame_triangulates` — after a frame with no failed `Allocate`, `GenerateIndices` of every
  patch of side `2 ^ p` returns within `2p + 1` nested calls, and the triangles it emits are
  non-degenerate, wound like the roots, and their areas add up to the patch's.
-/

namespace SpringRoam

/-! ### Corners in the patch -/

/-- The grid point `v` lies in the patch `[0, PS]²`. -/
def Int2.InPatch (PS : Int) (v : Int2) : Prop := 0 ≤ v.x ∧ v.x ≤ PS ∧ 0 ≤ v.y ∧ v.y ≤ PS

namespace Tri

/-- The corners of `t` lie in the patch `[0, PS]²`. -/
def InPatch (PS : Int) (t : Tri) : Prop :=
  t.left.InPatch PS ∧ t.right.InPatch PS ∧ t.apex.InPatch PS

variable {PS : Int} {t : Tri}

theorem InPatch.center (h : t.InPatch PS) : t.center.InPatch PS := by
  obtain ⟨⟨h₁, h₂, h₃, h₄⟩, ⟨h₅, h₆, h₇, h₈⟩, -⟩ := h
  simp only [Int2.InPatch, Tri.center, Int.shiftRight_one]
  omega

theorem InPatch.child (h : t.InPatch PS) (b : Bool) : (t.child b).InPatch PS := by
  cases b
  · exact ⟨h.2.2, h.1, h.center⟩
  · exact ⟨h.2.1, h.2.2, h.center⟩

theorem InPatch.descend (h : t.InPatch PS) (π : List Bool) : (t.descend π).InPatch PS := by
  induction π generalizing t with
  | nil => exact h
  | cons b π ih => exact ih (h.child b)

end Tri

theorem rootTri_inPatch (PS : Nat) (r : Bool) : (rootTri PS r).InPatch PS := by
  cases r <;> simp [rootTri, Tri.InPatch, Int2.InPatch]

theorem vertexIndex_lt {PATCH_SIZE : Nat} {v : Int2} (h : v.InPatch PATCH_SIZE) :
    0 ≤ vertexIndex PATCH_SIZE v ∧ vertexIndex PATCH_SIZE v < ((PATCH_SIZE : Int) + 1) ^ 2 := by
  obtain ⟨h₁, h₂, h₃, h₄⟩ := h
  have : v.y * (PATCH_SIZE + 1) ≤ PATCH_SIZE * (PATCH_SIZE + 1) :=
    Int.mul_le_mul_of_nonneg_right h₄ (by omega)
  have : 0 ≤ v.y * (PATCH_SIZE + 1) := Int.mul_nonneg h₃ (by omega)
  have : ((PATCH_SIZE : Int) + 1) ^ 2 = PATCH_SIZE * (PATCH_SIZE + 1) + (PATCH_SIZE + 1) := by ring
  unfold vertexIndex
  constructor <;> linarith

section Range

theorem ite_bind_eq_some {α β : Type} {c : Prop} [Decidable c] {x : Option α} {a₀ : α}
    {k : α → Option β} {y : β} (h : (if c then x.bind k else (some a₀).bind k) = some y) :
    ∃ a, (if c then x else some a₀) = some a ∧ k a = some y := by
  split_ifs at h ⊢ <;> exact Option.bind_eq_some.mp h

variable (PATCH_SIZE : Nat)

theorem leafBorderVertices_mem {left rght apex depth : Int2} {v : Int × Bool}
    (h : v ∈ leafBorderVertices PATCH_SIZE left rght apex depth) :
    v.1 = vertexIndex PATCH_SIZE left ∨ v.1 = vertexIndex PATCH_SIZE rght ∨
      v.1 = vertexIndex PATCH_SIZE apex := by
  unfold leafBorderVertices at h
  split_ifs at h <;> simp only [List.mem_cons, List.not_mem_nil, or_false] at h <;>
    rcases h with h | h | h | h | h | h <;> simp [h]

theorem recursGenIndices_in_range {fuel : Nat} {m : Mesh} {tri : TriPtr} {t : Tri} {l : List Int}
    (ht : t.InPatch PATCH_SIZE)
    (h : RecursGenIndices PATCH_SIZE fuel m tri t.left t.right t.apex = some l) :
    ∀ i ∈ l, 0 ≤ i ∧ i < ((PATCH_SIZE : Int) + 1) ^ 2 := by
  rw [recursGenIndices_eq] at h
  obtain ⟨ps, -, rfl⟩ := Option.map_eq_some'.mp h
  intro i hi
  obtain ⟨ρ, -, hi⟩ := List.mem_flatMap.mp hi
  have hρ := ht.descend ρ
  simp only [triIndices, List.mem_cons, List.not_mem_nil, or_false] at hi
  rcases hi with rfl | rfl | rfl
  exacts [vertexIndex_lt hρ.2.2, vertexIndex_lt hρ.1, vertexIndex_lt hρ.2.1]

theorem recursGenBorderVertices_in_range {fuel : Nat} {m : Mesh} {tri : TriPtr} {t : Tri}
    {depth : Int2} {l : List (Int × Bool)} (ht : t.InPatch PATCH_SIZE)
    (h : RecursGenBorderVertices PATCH_SIZE fuel m tri t.left t.right t.apex depth = some l) :
    ∀ v ∈ l, 0 ≤ v.1 ∧ v.1 < ((PATCH_SIZE : Int) + 1) ^ 2 := by
  rw [recursGenBorderVertices_eq] at h
  obtain ⟨ls, -, rfl⟩ := Option.map_eq_some'.mp h
  intro v hv
  obtain ⟨x, -, hv⟩ := List.mem_flatMap.mp hv
  have hx := ht.descend x.1
  rcases leafBorderVertices_mem PATCH_SIZE hv with e | e | e <;> rw [e]
  exacts [vertexIndex_lt hx.1, vertexIndex_lt hx.2.1, vertexIndex_lt hx.2.2]

/-- **Every index the walks emit names a vertex of the patch.** For every mesh, however its
links are set, the indices `GenerateIndices` returns and the border vertices
`GenerateBorderVertices` adds lie in `[0, (PATCH_SIZE + 1)²)`, the range of the patch's vertex
array: halving a hypotenuse never leaves the patch. -/
theorem emitted_indices_in_range (fuel : Nat) (m : Mesh) (px pz : Nat) :
    (∀ l, GenerateIndices PATCH_SIZE fuel m px pz = some l →
      ∀ i ∈ l, 0 ≤ i ∧ i < ((PATCH_SIZE : Int) + 1) ^ 2) ∧
    (∀ {F : Type} (p p' : Patch F) (bv bv' : List (Int × Bool)),
      GenerateBorderVertices PATCH_SIZE fuel p px pz m bv = some (p', bv') →
      ∀ v ∈ bv', v ∈ bv ∨ (0 ≤ v.1 ∧ v.1 < ((PATCH_SIZE : Int) + 1) ^ 2)) := by
  have hroot : ∀ r, (rootTri PATCH_SIZE r).InPatch PATCH_SIZE := rootTri_inPatch PATCH_SIZE
  refine ⟨fun l h i hi => ?_, fun {F} p p' bv bv' h v hv => ?_⟩
  · -- the two roots' walks
    simp only [GenerateIndices, Option.bind_eq_bind, Option.bind_eq_some, Option.pure_def,
      Option.some.injEq] at h
    obtain ⟨a, ha, b, hb, rfl⟩ := h
    rcases List.mem_append.mp hi with hi | hi
    · exact recursGenIndices_in_range PATCH_SIZE (t := rootTri PATCH_SIZE false) (hroot false)
        ha i hi
    · exact recursGenIndices_in_range PATCH_SIZE (t := rootTri PATCH_SIZE true) (hroot true)
        hb i hi
  · rw [GenerateBorderVertices] at h
    split at h
    · obtain ⟨-, rfl⟩ := Prod.mk.inj (Option.some.inj h)
      exact .inl hv
    right
    -- each of the four sides is skipped or walked from a root
    have side : ∀ (r : Bool) (d : Int2) (c : Prop) [Decidable c] (l : List (Int × Bool)),
        (if c then RecursGenBorderVertices PATCH_SIZE fuel m (TriPtr.root r px pz)
          (rootTri PATCH_SIZE r).left (rootTri PATCH_SIZE r).right (rootTri PATCH_SIZE r).apex d
          else some []) = some l → ∀ v ∈ l, 0 ≤ v.1 ∧ v.1 < ((PATCH_SIZE : Int) + 1) ^ 2 := by
      intro r d c _ l hl
      split_ifs at hl
      · exact recursGenBorderVertices_in_range PATCH_SIZE (hroot r) hl
      · obtain rfl := Option.some.inj hl; simp
    simp only [Option.pure_def] at h
    obtain ⟨a, ha, h⟩ := ite_bind_eq_some h
    obtain ⟨b, hb, h⟩ := ite_bind_eq_some h
    obtain ⟨c, hc, h⟩ := ite_bind_eq_some h
    obtain ⟨d, hd, h⟩ := ite_bind_eq_some h
    obtain ⟨-, rfl⟩ := Prod.mk.inj (Option.some.inj h)
    simp only [List.mem_append] at hv
    rcases hv with ((hv | hv) | hv) | hv
    exacts [side false _ _ a ha v hv, side false _ _ b hb v hv, side true _ _ c hc v hv,
      side true _ _ d hd v hv]

end Range

set_option maxRecDepth 100000 in
/-- After the frame `hotFrame 400`, the indices `GenerateIndices` emits for patch `(0, 0)` of side
8 and the border vertices `GenerateBorderVertices` emits for it, tessellated, lie in `[0, 81)`. -/
theorem emitted_indices_in_range_hot :
    ∃ (m : Mesh) (l : List Int) (r : Patch ℚ × List (Int × Bool)), hotFrame 400 = some m ∧
      GenerateIndices 8 7 m 0 0 = some l ∧
      GenerateBorderVertices 8 7 { hotPatch ⟨0, 0⟩ [1, 2] [] with isTesselated := true } 0 0 m [] =
        some r ∧
      (∀ i ∈ l, 0 ≤ i ∧ i < (((8 : Nat) : Int) + 1) ^ 2) ∧
      ∀ v ∈ r.2, v ∈ ([] : List (Int × Bool)) ∨ (0 ≤ v.1 ∧ v.1 < (((8 : Nat) : Int) + 1) ^ 2) := by
  have e : ((hotFrame 400).bind fun m => (GenerateIndices 8 7 m 0 0).bind fun _ =>
      GenerateBorderVertices 8 7 { hotPatch ⟨0, 0⟩ [1, 2] [] with isTesselated := true } 0 0 m
        []).isSome := by
    with_unfolding_all decide
  obtain ⟨r, e⟩ := Option.isSome_iff_exists.mp e
  obtain ⟨m, h, e⟩ := Option.bind_eq_some.mp e
  obtain ⟨l, hl, hr⟩ := Option.bind_eq_some.mp e
  exact ⟨m, l, r, h, hl, hr, (emitted_indices_in_range 8 7 m 0 0).1 l hl,
    (emitted_indices_in_range 8 7 m 0 0).2 _ _ [] r.2 hr⟩

/-! ### Winding and area -/

/-- Twice the signed area of `t`, its corners taken in the order `GenerateIndices` emits them:
apex, left, right. -/
def Tri.cross (t : Tri) : Int :=
  (t.left.x - t.apex.x) * (t.right.y - t.apex.y) - (t.left.y - t.apex.y) * (t.right.x - t.apex.x)

theorem Tri.Legs.cross {t : Tri} {a : Int2} (h : t.Legs a) :
    t.cross = -(a.x * a.x + a.y * a.y) := by
  obtain ⟨hl, hr⟩ := h
  simp only [Tri.cross, hl, hr]
  ring

theorem Tri.legChild_sq {a : Int2} (he : (a.x + a.y) % 2 = 0) (b : Bool) :
    2 * ((Tri.legChild a b).x * (Tri.legChild a b).x +
      (Tri.legChild a b).y * (Tri.legChild a b).y) = a.x * a.x + a.y * a.y := by
  obtain ⟨k, hk⟩ : ∃ k, a.x + a.y = 2 * k := ⟨(a.x + a.y) / 2, by omega⟩
  have e₁ : -(a.x + a.y) / 2 = -k := by omega
  have e₂ : (a.x - a.y) / 2 = k - a.y := by omega
  have e₃ : (a.y - a.x) / 2 = a.y - k := by omega
  have ex : a.x = 2 * k - a.y := by omega
  cases b <;> simp only [Tri.legChild, e₁, e₂, e₃] <;> rw [ex] <;> ring

theorem LegShape.sq_pos {p d : Nat} {a : Int2} (h : LegShape p d a) :
    0 < a.x * a.x + a.y * a.y := by
  have hs : ∀ k : Nat, (2 : Int) ^ k ≠ 0 := fun k => pow_ne_zero k two_ne_zero
  -- a leg has a nonzero coordinate
  suffices hne : a.x ≠ 0 ∨ a.y ≠ 0 from
    lt_of_le_of_ne (add_nonneg (mul_self_nonneg _) (mul_self_nonneg _)) fun h0 =>
      hne.elim (· (mul_self_add_mul_self_eq_zero.mp h0.symm).1)
        (· (mul_self_add_mul_self_eq_zero.mp h0.symm).2)
  unfold LegShape at h
  split at h
  · rcases h with ⟨-, hy | hy⟩ | ⟨-, hx | hx⟩
    · exact .inr (hy ▸ hs _)
    · exact .inr (hy ▸ neg_ne_zero.mpr (hs _))
    · exact .inl (hx ▸ hs _)
    · exact .inl (hx ▸ neg_ne_zero.mpr (hs _))
  · obtain ⟨hx | hx, -⟩ := h
    · exact .inl (hx ▸ hs _)
    · exact .inl (hx ▸ neg_ne_zero.mpr (hs _))

theorem rootTri_cross (p : Nat) (r : Bool) : (rootTri (2 ^ p) r).cross = -(4 ^ p) := by
  rw [show (4 : Int) ^ p = 2 ^ p * 2 ^ p by rw [← mul_pow]; norm_num]
  cases r <;> simp [Tri.cross, rootTri]

section Area

variable {p : Nat}

/-- **The leaves below a right isosceles lattice triangle are wound like it and add up to it.**
For the leaf paths `ls` below a node whose triangle `t` has the leg shape of depth `d`, with no
leaf below depth `2p`, every leaf's triangle has negative cross, and their crosses sum to
`t`'s. -/
theorem leafPaths_cross : ∀ {fuel : Nat} {m : Mesh} {tri : TriPtr} {ls : List (List Bool)}
    {t : Tri} {a : Int2} {d : Nat}, leafPaths fuel m tri = some ls → t.Legs a →
    LegShape p d a → (∀ ρ ∈ ls, d + ρ.length ≤ 2 * p) →
    (∀ ρ ∈ ls, (t.descend ρ).cross < 0) ∧ (ls.map fun ρ => (t.descend ρ).cross).sum = t.cross
  | 0, _, _, _, _, _, _, h, _, _, _ => by simp [leafPaths] at h
  | fuel + 1, m, tri, ls, t, a, d, h, ht, hs, hd => by
    simp only [leafPaths] at h
    split at h
    · -- a leaf
      obtain rfl := Option.some.inj h
      have := hs.sq_pos
      simp only [List.mem_singleton, forall_eq, Tri.descend_nil, List.map_cons, List.map_nil,
        List.sum_cons, List.sum_nil, add_zero, ht.cross, and_true]
      omega
    split at h
    case h_2 => simp at h
    -- a branch: above depth `2p`, so its children are right isosceles with half its area
    rename_i lc rc _ _
    simp only [Option.bind_eq_bind, Option.bind_eq_some, Option.pure_def, Option.some.injEq] at h
    obtain ⟨la, ha, lb, hb, rfl⟩ := h
    have hdl : ∀ ρ ∈ la, d + 1 + ρ.length ≤ 2 * p := fun ρ hρ => by
      have := hd _ (List.mem_append_left _ (List.mem_map_of_mem _ hρ)); simp at this; omega
    have hdr : ∀ ρ ∈ lb, d + 1 + ρ.length ≤ 2 * p := fun ρ hρ => by
      have := hd _ (List.mem_append_right _ (List.mem_map_of_mem _ hρ)); simp at this; omega
    have hd' : d < 2 * p := by
      obtain ⟨ρ, hρ⟩ := List.exists_mem_of_ne_nil la (leafPaths_ne_nil ha)
      have := hdl ρ hρ; omega
    obtain ⟨hs₀, he⟩ := legShape_step hs hd' false
    obtain ⟨hs₁, -⟩ := legShape_step hs hd' true
    obtain ⟨n₀, s₀⟩ := leafPaths_cross ha (ht.child he false) hs₀ hdl
    obtain ⟨n₁, s₁⟩ := leafPaths_cross hb (ht.child he true) hs₁ hdr
    refine ⟨?_, ?_⟩
    · simp only [List.mem_append, List.mem_map]
      rintro _ (⟨ρ, hρ, rfl⟩ | ⟨ρ, hρ, rfl⟩)
      exacts [n₀ ρ hρ, n₁ ρ hρ]
    · simp only [List.map_append, List.map_map, List.sum_append, Function.comp_def,
        Tri.descend_cons, s₀, s₁, (ht.child he false).cross, (ht.child he true).cross, ht.cross]
      have := Tri.legChild_sq he false
      have := Tri.legChild_sq he true
      omega

end Area

/-! ### After a frame -/

section Forest

variable {numX numZ : Nat} {m : Mesh} {S : Addr → Bool}

theorem Represents.leafPaths_spec (hR : Represents numX numZ m S) {D : Nat}
    (hD : ∀ x, S x = true → x.steps.length < D) :
    ∀ (fuel : Nat) (a : Addr) (q : TriPtr), InTree numX numZ S a → m.locate a = some q →
      a.steps.length ≤ D → D < a.steps.length + fuel →
      ∃ ls, leafPaths fuel m q = some ls ∧ ∀ ρ ∈ ls, a.steps.length + ρ.length ≤ D := by
  intro fuel
  induction fuel with
  | zero => intro _ _ _ _ h₁ h₂; omega
  | succ fuel ih =>
    intro a q ha hq h₁ h₂
    have hl := hR.leaf a q ha hq
    cases hs : S a
    case false => exact ⟨[[]], by simp [leafPaths, hl, hs], by simpa using h₁⟩
    case true =>
      have hlt := hD a hs
      have hc : ∀ b, InTree numX numZ S (a.child b) := fun b => (inTree_child a b).mpr ⟨ha.1, hs⟩
      obtain ⟨lc, hlc⟩ := hR.located _ (hc false)
      obtain ⟨rc, hrc⟩ := hR.located _ (hc true)
      obtain ⟨la, hla, hda⟩ := ih _ lc (hc false) hlc (by simp; omega) (by simp; omega)
      obtain ⟨lb, hlb, hdb⟩ := ih _ rc (hc true) hrc (by simp; omega) (by simp; omega)
      simp only [Mesh.locate_child, hq, Option.some_bind, TriTreeNode.childLink,
        Bool.false_eq_true, if_false, if_true] at hlc hrc
      refine ⟨la.map (false :: ·) ++ lb.map (true :: ·), ?_, ?_⟩
      · simp only [leafPaths, hl, hs, Bool.not_true, Bool.false_eq_true, if_false, hlc, hrc, hla,
          hlb, Option.bind_eq_bind, Option.some_bind, Option.pure_def]
      · simp only [List.mem_append, List.mem_map]
        rintro _ (⟨ρ, hρ, rfl⟩ | ⟨ρ, hρ, rfl⟩)
        · have := hda ρ hρ; simp at this ⊢; omega
        · have := hdb ρ hρ; simp at this ⊢; omega

end Forest

/-- The nodes of the grid above depth `D`. -/
def aboveDepth (numX numZ D : Nat) (x : Addr) : Bool :=
  decide (x.InGrid numX numZ ∧ x.steps.length < D)

theorem closed_aboveDepth (numX numZ D : Nat) : Closed numX numZ (aboveDepth numX numZ D) := by
  constructor
  · intro a ha
    simp only [aboveDepth, decide_eq_true_eq] at ha
    refine ⟨ha.1, ?_⟩
    rcases a.eq_root_or_child with h | ⟨a', b, rfl⟩
    · exact .inl h
    · simp only [Addr.child_steps, List.length_cons] at ha
      exact .inr (by simpa [aboveDepth] using ⟨ha.1, by omega⟩)
  · intro a n ha hn
    simp only [aboveDepth, decide_eq_true_eq] at ha ⊢
    exact ⟨nbr_inGrid a ha.1 hn, by rw [nbr_steps_length a hn]; exact ha.2⟩

section Frame

variable {F : Type} [LinearOrderedField F] {p VARIANCE_DEPTH : Nat}

theorem Requested.length_lt {V : List Bool → F} {lim f : F} {r : Bool} {c : Int2}
    {σ : List Bool}
    (h : Requested (SplitWanted (2 ^ p) VARIANCE_DEPTH V lim f
      ((rootTri ((2 ^ p : Nat) : Int) r).shift c)) [] σ) : σ.length < 2 * p := by
  have key : ∀ π : List Bool, π.length ≤ 2 * p → SplitWanted (2 ^ p) VARIANCE_DEPTH V lim f
      ((rootTri ((2 ^ p : Nat) : Int) r).shift c) π → π.length < 2 * p := by
    intro π hπ hw
    rw [← span_gt_one_iff p r c hπ, ← cast_two_pow]
    by_contra hn
    exact hw.1 (by simpa only [not_or, not_lt] using hn)
  induction h with
  | here hw => exact key [] (Nat.zero_le _) hw
  | child b _ hw ih => exact key _ (by simp; omega) hw

/-- What a frame on tiles of side `2 ^ p` splits lies above depth `2p`. -/
theorem LeastCover.frame_above {SQUARE_SIZE numX numZ : Nat} {avgHeight : F}
    {distance : Float3 F → Float3 F → F} {camPos : Float3 F} {viewRadius : Int}
    {calls : List (TileCall F)} {S : Addr → Bool}
    (h : LeastCover numX numZ (fun _ => false) (FrameRequests (2 ^ p) VARIANCE_DEPTH
      SQUARE_SIZE avgHeight distance camPos viewRadius calls) S)
    (hg : ∀ c ∈ calls, c.px < numX ∧ c.pz < numZ) (x : Addr) (hx : S x = true) :
    x.steps.length < 2 * p := by
  have := h.least _ (closed_aboveDepth numX numZ (2 * p)) (fun _ h => absurd h Bool.false_ne_true)
    (fun x ⟨c, hc, r, σ, hσ, hx⟩ => by
      subst hx
      simpa [aboveDepth, Addr.below, Addr.InGrid, hg c hc] using hσ.length_lt) x hx
  simp only [aboveDepth, decide_eq_true_eq] at this
  exact this.2

/-- **After a frame, `GenerateIndices` draws each patch whole, wound like its roots.** On a
freshly reset, linked grid of patches of side `2 ^ p`, after a frame with no failed `Allocate`,
`GenerateIndices` of every patch of the grid returns within `2p + 1` nested calls; it emits the
corners of a list of triangles of the patch, each non-degenerate and wound like the two roots
(negative cross), whose areas add up to the patch's `4 ^ p`. -/
theorem frame_triangulates (p VARIANCE_DEPTH SQUARE_SIZE : Nat) (avgHeight : F)
    (distance : Float3 F → Float3 F → F) (camPos : Float3 F) (viewRadius : Int)
    (numX numZ : Nat) (poolSize : Nat → Nat) (fuel : Nat) (calls : List (TileCall F)) (m : Mesh)
    (hg : ∀ c ∈ calls, c.px < numX ∧ c.pz < numZ)
    (h : tessellateTiles (2 ^ p) VARIANCE_DEPTH SQUARE_SIZE avgHeight distance camPos viewRadius
      fuel calls (freshMesh numX numZ poolSize) = some m)
    (hfa : m.failedAllocs = 0) (px pz : Nat) (hx : px < numX) (hz : pz < numZ) (fuel' : Nat)
    (hfuel : 2 * p < fuel') :
    ∃ ts : List Tri,
      GenerateIndices (2 ^ p) fuel' m px pz = some (ts.flatMap (triIndices (2 ^ p))) ∧
      (∀ t ∈ ts, t.InPatch (2 ^ p) ∧ t.cross < 0) ∧ (ts.map Tri.cross).sum = -(2 * 4 ^ p) := by
  obtain ⟨S, hR, hc⟩ := tessellateTiles_represents SQUARE_SIZE avgHeight distance camPos
    viewRadius fuel (represents_freshMesh poolSize) hg h hfa
  -- the leaves below each root: found, above depth `2p`, wound like the root, adding up to it
  have hroot : ∀ r, ∃ ls, leafPaths fuel' m (TriPtr.root r px pz) = some ls ∧
      (∀ ρ ∈ ls, ((rootTri (2 ^ p) r).descend ρ).InPatch (2 ^ p) ∧
        ((rootTri (2 ^ p) r).descend ρ).cross < 0) ∧
      (ls.map fun ρ => ((rootTri (2 ^ p) r).descend ρ).cross).sum = -(4 ^ p) := fun r => by
    obtain ⟨ls, hls, hd⟩ := hR.leafPaths_spec (hc.frame_above hg) fuel' ⟨px, pz, r, []⟩ _
      ⟨⟨hx, hz⟩, .inl rfl⟩ rfl (by simp) (by simpa using hfuel)
    obtain ⟨a, ha, hs⟩ := rootTri_legs p r
    obtain ⟨hneg, hsum⟩ := leafPaths_cross hls ha hs (by simpa using hd)
    have hin : (rootTri (2 ^ p) r).InPatch (2 ^ p) := by
      simpa only [cast_two_pow] using rootTri_inPatch (2 ^ p) r
    exact ⟨ls, hls, fun ρ hρ => ⟨hin.descend ρ, hneg ρ hρ⟩, hsum.trans (rootTri_cross p r)⟩
  obtain ⟨l₀, h₀, n₀, s₀⟩ := hroot false
  obtain ⟨l₁, h₁, n₁, s₁⟩ := hroot true
  refine ⟨l₀.map (rootTri (2 ^ p) false).descend ++ l₁.map (rootTri (2 ^ p) true).descend, ?_,
    ?_, ?_⟩
  · rw [generateIndices_eq, show TriPtr.baseLeft px pz = TriPtr.root false px pz from rfl,
      show TriPtr.baseRight px pz = TriPtr.root true px pz from rfl, h₀, h₁, cast_two_pow]
    simp [List.flatMap_append, List.flatMap_map]
  · simp only [List.mem_append, List.mem_map]
    rintro _ (⟨ρ, hρ, rfl⟩ | ⟨ρ, hρ, rfl⟩)
    exacts [n₀ ρ hρ, n₁ ρ hρ]
  · simp only [List.map_append, List.map_map, List.sum_append, Function.comp_def, s₀, s₁]
    ring

end Frame

set_option maxRecDepth 100000 in
/-- After the frame `hotFrame 400` on a `2 × 1` grid of patches of side 8, `GenerateIndices` of
patch `(0, 0)` within 7 nested calls draws triangles of the patch wound like the roots, of
areas adding up to 64. -/
theorem frame_triangulates_hot :
    ∃ m, hotFrame 400 = some m ∧ m.failedAllocs = 0 ∧
      ∃ ts : List Tri, GenerateIndices (2 ^ 3) 7 m 0 0 = some (ts.flatMap (triIndices (2 ^ 3))) ∧
        (∀ t ∈ ts, t.InPatch (2 ^ 3) ∧ t.cross < 0) ∧ (ts.map Tri.cross).sum = -(2 * 4 ^ 3) := by
  have e : (hotFrame 400).map Mesh.failedAllocs = some 0 := by with_unfolding_all decide
  obtain ⟨m, h, hfa⟩ := Option.map_eq_some'.mp e
  exact ⟨m, h, hfa, frame_triangulates 3 7 1 0 (fun _ _ => 0) ⟨0, 0, 0⟩ 400 2 1 _ 30 _ m
    (by simp) h hfa 0 0 (by decide) (by decide) 7 (by decide)⟩

end SpringRoam
