import SpringRoam.SplitForest
import SpringRoam.Traversal
import SpringRoam.Grid

/-!
# The tessellation splits a least forest

A run of `Tessellate` over the tiles of a linked grid, in which no `Allocate` fails, leaves a
mesh whose split nodes are the least closed split set holding every node the walks ask to
split. The walk of one root asks for the nodes `Requested` below it: the root if its triangle
wants a split (`SplitWanted`), and then, below each node asked for, its children that want one.

* `Represents.splitAt_eq`: a mesh that represents `S` is split exactly at `S`;
* `tessellatePaths_represents`, `tessellate_represents`, `tessellateTiles_refines`: the
  walk, one tile's `Tessellate` and a run over a list of tiles each refine the forest to the
  least closed split set that holds what they ask for;
* `tessellate_lod_monotone`: larger LOD parameters split a superset of the nodes.
-/

namespace SpringRoam

/-- The node at child path `π` (first step first) below root `r` of the patch at `(px, pz)`. -/
def Addr.below (px pz : Nat) (r : Bool) (π : List Bool) : Addr := ⟨px, pz, r, π.reverse⟩

@[simp] theorem Addr.below_nil (px pz : Nat) (r : Bool) :
    Addr.below px pz r [] = ⟨px, pz, r, []⟩ := rfl

@[simp] theorem Addr.below_concat (px pz : Nat) (r : Bool) (π : List Bool) (b : Bool) :
    Addr.below px pz r (π ++ [b]) = (Addr.below px pz r π).child b := by
  simp [Addr.below, Addr.child]

/-! ### Reading the split set off the mesh -/

section Forest

variable {numX numZ : Nat} {m : Mesh} {S : Addr → Bool}

/-- **A mesh that represents `S` is split exactly at `S`**: nodes outside the forest, below a
leaf or on a root off the grid, are not split. -/
theorem Represents.splitAt_eq (hR : Represents numX numZ m S) (a : Addr) :
    m.splitAt a = S a := by
  have hout : ∀ x, ¬ InTree numX numZ S x → S x = false := fun x hx => by
    cases hs : S x
    · rfl
    · exact absurd (hR.closed.inTree x hs) hx
  by_cases ha : InTree numX numZ S a
  · obtain ⟨p, hp⟩ := hR.located a ha
    simp [Mesh.splitAt, hp, hR.leaf a p ha hp]
  rw [hout a ha]
  induction a using Addr.stepInduction with
  | root px pz r =>
    have hg : ¬ (⟨px, pz, r, []⟩ : Addr).InGrid numX numZ := fun hg => ha ⟨hg, .inl rfl⟩
    simp [Mesh.splitAt, hR.outer px pz r hg]
  | child y b ih =>
    have hy : S y = false := by
      cases hs : S y
      · rfl
      · exact absurd ⟨(hR.closed.inTree y hs).1, hs⟩ ((inTree_child y b).not.mp ha)
    unfold Mesh.splitAt
    cases hq : m.locate y with
    | none => simp [hq]
    | some q =>
      -- the parent is a leaf: in the forest since `S y` is false, outside it by induction
      have hl : (m.node q).IsLeaf = true := by
        by_cases hyt : InTree numX numZ S y
        · simp [hR.leaf y q hyt hq, hy]
        · simpa [Mesh.splitAt, hq] using ih hyt
      simp only [TriTreeNode.IsLeaf, Bool.and_eq_true, Option.isNone_iff_eq_none] at hl
      cases b <;> simp [hq, TriTreeNode.childLink, hl.1, hl.2]

end Forest

/-! ### What the walk asks for -/

section Requests

variable {F : Type} [LinearOrderedField F] (PATCH_SIZE VARIANCE_DEPTH : Nat)

/-- Lines 290-300 as the walk by paths reads them: the node at path `π` below the root
triangle `T` is split when its triangle spans more than one unit in some axis and its scaled
variance exceeds one. -/
def SplitWanted (variance : List Bool → F) (varianceMaxLimit camDistLODFactor : F) (T : Tri)
    (π : List Bool) : Prop :=
  let t := T.descend π
  ¬ (t.spanX ≤ 1 ∧ t.spanY ≤ 1) ∧
  ¬ (if π.length < VARIANCE_DEPTH then
      min (variance π) varianceMaxLimit * PATCH_SIZE * max t.spanX t.spanY * camDistLODFactor
    else 10) ≤ 1

instance (variance : List Bool → F) (varianceMaxLimit camDistLODFactor : F) (T : Tri)
    (π : List Bool) :
    Decidable (SplitWanted PATCH_SIZE VARIANCE_DEPTH variance varianceMaxLimit camDistLODFactor
      T π) :=
  inferInstanceAs (Decidable (_ ∧ _))

end Requests

/-- **The nodes the walk from `π` asks to split**, when every split it asks for is made: `π`
if it wants a split, and below a node asked for, each child that wants one. -/
inductive Requested (W : List Bool → Prop) (π : List Bool) : List Bool → Prop
  | here : W π → Requested W π π
  | child {σ : List Bool} (b : Bool) : Requested W π σ → W (σ ++ [b]) →
      Requested W π (σ ++ [b])

namespace Requested

variable {W W' : List Bool → Prop} {π σ : List Bool}

theorem wants_start (h : Requested W π σ) : W π := by
  induction h with
  | here hw => exact hw
  | child _ _ _ ih => exact ih

theorem of_child (hπ : W π) {b : Bool} (h : Requested W (π ++ [b]) σ) : Requested W π σ := by
  induction h with
  | here hw => exact .child b (.here hπ) hw
  | child c _ hw ih => exact .child c ih hw

theorem cases_child (h : Requested W π σ) :
    σ = π ∨ Requested W (π ++ [false]) σ ∨ Requested W (π ++ [true]) σ := by
  induction h with
  | here => exact .inl rfl
  | child b _ hw ih =>
    rcases ih with rfl | h | h
    · cases b
      · exact .inr (.inl (.here hw))
      · exact .inr (.inr (.here hw))
    · exact .inr (.inl (.child b h hw))
    · exact .inr (.inr (.child b h hw))

theorem mono (hW : ∀ ρ, W ρ → W' ρ) (h : Requested W π σ) : Requested W' π σ := by
  induction h with
  | here hw => exact .here (hW _ hw)
  | child b _ hw ih => exact .child b ih (hW _ hw)

end Requested

/-! ### Least covers -/

section Cover

variable (numX numZ : Nat)

/-- **`S'` is the least closed split set that holds `S` and every node of `R`.** -/
structure LeastCover (S : Addr → Bool) (R : Addr → Prop) (S' : Addr → Bool) : Prop where
  le : ∀ x, S x = true → S' x = true
  mem : ∀ x, R x → S' x = true
  least : ∀ T, Closed numX numZ T → (∀ x, S x = true → T x = true) → (∀ x, R x → T x = true) →
    ∀ x, S' x = true → T x = true

variable {numX numZ} {S S' S'' : Addr → Bool} {R R' : Addr → Prop}

theorem LeastCover.refl (h : ∀ x, R x → S x = true) : LeastCover numX numZ S R S :=
  ⟨fun _ hx => hx, h, fun _ _ hS _ => hS⟩

theorem LeastSplit.leastCover {a : Addr} (h : LeastSplit numX numZ S a S') :
    LeastCover numX numZ S (· = a) S' :=
  ⟨h.le, fun _ hx => hx ▸ h.mem, fun T hT hS hR => h.least T hT hS (hR a rfl)⟩

theorem LeastCover.trans (h₁ : LeastCover numX numZ S R S') (h₂ : LeastCover numX numZ S' R' S'') :
    LeastCover numX numZ S (fun x => R x ∨ R' x) S'' :=
  ⟨fun x hx => h₂.le x (h₁.le x hx),
    fun x hx => hx.elim (fun h => h₂.le x (h₁.mem x h)) (h₂.mem x),
    fun T hT hS hR => h₂.least T hT (h₁.least T hT hS fun x h => hR x (.inl h))
      fun x h => hR x (.inr h)⟩

theorem LeastCover.congr (h : LeastCover numX numZ S R S') (hR : ∀ x, R x ↔ R' x) :
    LeastCover numX numZ S R' S' :=
  ⟨h.le, fun x hx => h.mem x ((hR x).mpr hx),
    fun T hT hS hR' => h.least T hT hS fun x hx => hR' x ((hR x).mp hx)⟩

end Cover

/-! ### One walk -/

section Walk

variable {F : Type} [LinearOrderedField F] {PATCH_SIZE VARIANCE_DEPTH : Nat}
  (V : List Bool → F) (lim f : F) (thr : Nat) (T : Tri)

theorem tessellatePaths_of_not_wanted {fuel : Nat} {m : Mesh} {tri : TriPtr} {π : List Bool}
    (hw : ¬ SplitWanted PATCH_SIZE VARIANCE_DEPTH V lim f T π) :
    tessellatePaths PATCH_SIZE VARIANCE_DEPTH V lim f thr T (fuel + 1) m tri π = some m := by
  simp only [tessellatePaths]
  by_cases h₁ : (T.descend π).spanX ≤ 1 ∧ (T.descend π).spanY ≤ 1
  · rw [if_pos h₁]
  rw [if_neg h₁, if_pos (not_not.mp fun h₂ => hw ⟨h₁, h₂⟩)]

theorem tessellatePaths_failedAllocs_le : ∀ {fuel : Nat} {m m' : Mesh} {tri : TriPtr}
    {π : List Bool},
    tessellatePaths PATCH_SIZE VARIANCE_DEPTH V lim f thr T fuel m tri π = some m' →
    m.failedAllocs ≤ m'.failedAllocs := by
  intro fuel
  induction fuel with
  | zero => intro _ _ _ _ h; simp [tessellatePaths] at h
  | succ fuel ih =>
    intro m m' tri π h
    by_cases hw : SplitWanted PATCH_SIZE VARIANCE_DEPTH V lim f T π
    · obtain ⟨hw₁, hw₂⟩ := hw
      simp only [tessellatePaths, hw₁, hw₂, if_false] at h
      obtain ⟨⟨m₁, b⟩, hs, h⟩ := Option.bind_eq_some.mp h
      refine (split_failedAllocs_le hs).trans ?_
      split at h
      · obtain ⟨m₂, h₂, h₃⟩ := Option.bind_eq_some.mp h
        exact (ih h₂).trans (ih h₃)
      · obtain rfl := Option.some.inj h; exact le_rfl
    · rw [tessellatePaths_of_not_wanted V lim f thr T hw] at h
      obtain rfl := Option.some.inj h; exact le_rfl

theorem tessellatePaths_poolGrows : ∀ {fuel : Nat} {m m' : Mesh} {tri : TriPtr} {π : List Bool},
    tessellatePaths PATCH_SIZE VARIANCE_DEPTH V lim f thr T fuel m tri π = some m' →
    PoolGrows thr m m' := by
  intro fuel
  induction fuel with
  | zero => intro _ _ _ _ h; simp [tessellatePaths] at h
  | succ fuel ih =>
    intro m m' tri π h
    by_cases hw : SplitWanted PATCH_SIZE VARIANCE_DEPTH V lim f T π
    · obtain ⟨hw₁, hw₂⟩ := hw
      simp only [tessellatePaths, hw₁, hw₂, if_false] at h
      obtain ⟨⟨m₁, b⟩, hs, h⟩ := Option.bind_eq_some.mp h
      refine (split_poolGrows hs).trans ?_
      split at h
      · obtain ⟨m₂, h₂, h₃⟩ := Option.bind_eq_some.mp h
        exact (ih h₂).trans (ih h₃)
      · obtain rfl := Option.some.inj h; exact .refl _
    · rw [tessellatePaths_of_not_wanted V lim f thr T hw] at h
      obtain rfl := Option.some.inj h; exact .refl _

variable {numX numZ : Nat} (px pz : Nat) (r : Bool)

/-- **One walk refines the forest.** A walk from the node at path `π` below root `r` of patch
`(px, pz)` in which no `Allocate` fails leaves a mesh that represents the least closed split
set holding the old one and every node the walk asks for; every old node stays where it was,
and no "illegal neighbor" branch of `Split` is taken. -/
theorem tessellatePaths_represents : ∀ (fuel : Nat) (m : Mesh) (S : Addr → Bool)
    (π : List Bool) (tri : TriPtr) (m' : Mesh), Represents numX numZ m S →
    InTree numX numZ S (Addr.below px pz r π) → m.locate (Addr.below px pz r π) = some tri →
    tessellatePaths PATCH_SIZE VARIANCE_DEPTH V lim f thr T fuel m tri π = some m' →
    m'.failedAllocs = m.failedAllocs →
    ∃ S', Represents numX numZ m' S' ∧
      LeastCover numX numZ S (fun x => ∃ σ, Requested
        (SplitWanted PATCH_SIZE VARIANCE_DEPTH V lim f T) π σ ∧ x = Addr.below px pz r σ) S' ∧
      (∀ x, InTree numX numZ S x → m'.locate x = m.locate x) ∧
        m'.illegalLinks = m.illegalLinks := by
  intro fuel
  induction fuel with
  | zero => intro _ _ _ _ _ _ _ _ h; simp [tessellatePaths] at h
  | succ fuel ih =>
    intro m S π tri m' hR ha hloc h hfa
    by_cases hw : SplitWanted PATCH_SIZE VARIANCE_DEPTH V lim f T π
    case neg =>
      rw [tessellatePaths_of_not_wanted V lim f thr T hw] at h
      obtain rfl := Option.some.inj h
      exact ⟨S, hR, .refl fun x ⟨σ, hσ, _⟩ => absurd hσ.wants_start hw, fun _ _ => rfl, rfl⟩
    simp only [tessellatePaths, hw.1, hw.2, if_false] at h
    obtain ⟨⟨m₁, b⟩, hs, h⟩ := Option.bind_eq_some.mp h
    -- the split made no failed allocation either
    have hfa₁ : m₁.failedAllocs = m.failedAllocs := by
      refine le_antisymm (hfa ▸ ?_) (split_failedAllocs_le hs)
      split at h
      · obtain ⟨m₂, h₂, h₃⟩ := Option.bind_eq_some.mp h
        exact (tessellatePaths_failedAllocs_le V lim f thr T h₂).trans
          (tessellatePaths_failedAllocs_le V lim f thr T h₃)
      · obtain rfl := Option.some.inj h; exact le_rfl
    obtain ⟨S₁, hR₁, hl₁, hst₁, hil₁⟩ :=
      split_represents thr fuel m S _ tri m₁ b hR ha hloc hs hfa₁
    -- the node split has both children in the forest
    have hin : ∀ c, InTree numX numZ S₁ ((Addr.below px pz r π).child c) := fun c =>
      (inTree_child _ _).mpr ⟨ha.1, hl₁.mem⟩
    obtain ⟨lc, hlc⟩ := hR₁.located _ (hin false)
    obtain ⟨rc, hrc⟩ := hR₁.located _ (hin true)
    have hloc₁ := (hst₁ _ ha).trans hloc
    simp only [Mesh.locate_child, hloc₁, Option.some_bind, TriTreeNode.childLink,
      Bool.false_eq_true, if_false,
      if_true] at hlc hrc
    simp only [hlc, hrc] at h
    obtain ⟨m₂, h₂, h₃⟩ := Option.bind_eq_some.mp h
    have hfa₂ : m₂.failedAllocs = m₁.failedAllocs := by
      have := tessellatePaths_failedAllocs_le V lim f thr T h₂
      have := tessellatePaths_failedAllocs_le V lim f thr T h₃
      omega
    obtain ⟨S₂, hR₂, hc₂, hst₂, hil₂⟩ := ih m₁ S₁ (π ++ [false]) lc m₂ hR₁
      (by simpa using hin false) (by simpa [hloc₁, TriTreeNode.childLink] using hlc) h₂ hfa₂
    obtain ⟨S₃, hR₃, hc₃, hst₃, hil₃⟩ := ih m₂ S₂ (π ++ [true]) rc m' hR₂
      (by simpa using (hin true).mono hc₂.le)
      (by simpa [hst₂ _ (hin true), hloc₁, TriTreeNode.childLink] using hrc)
      h₃ (by omega)
    refine ⟨S₃, hR₃, ((hl₁.leastCover.trans hc₂).trans hc₃).congr fun x => ?_, fun x hx => ?_,
      hil₃.trans (hil₂.trans hil₁)⟩
    · -- what the walk asks for is the node and what its children's walks ask for
      constructor
      · rintro ((rfl | ⟨σ, hσ, rfl⟩) | ⟨σ, hσ, rfl⟩)
        · exact ⟨π, .here hw, rfl⟩
        · exact ⟨σ, hσ.of_child hw, rfl⟩
        · exact ⟨σ, hσ.of_child hw, rfl⟩
      · rintro ⟨σ, hσ, rfl⟩
        rcases hσ.cases_child with rfl | h | h
        · exact .inl (.inl rfl)
        · exact .inl (.inr ⟨σ, h, rfl⟩)
        · exact .inr ⟨σ, h, rfl⟩
    · have hx₁ := hx.mono hl₁.le
      rw [hst₃ x (hx₁.mono hc₂.le), hst₂ x hx₁, hst₁ x hx]

end Walk

/-! ### One tile -/

section Tile

variable {F : Type} [LinearOrderedField F] (PATCH_SIZE VARIANCE_DEPTH : Nat)

/-- The nodes of the forest of the patch `p` at `(px, pz)` that `Tessellate` asks to split with
the LOD parameters `camDistLODFactor` and `varianceMaxLimit`: below each root `r`, what the walk
from it asks for, reading the variance array of that half. -/
def TileRequests (p : Patch F) (px pz : Nat) (camDistLODFactor varianceMaxLimit : F)
    (x : Addr) : Prop :=
  ∃ r σ, Requested (SplitWanted PATCH_SIZE VARIANCE_DEPTH (fun σ => p.variance r (heapIdx 1 σ))
    varianceMaxLimit camDistLODFactor ((rootTri PATCH_SIZE r).shift p.coors)) [] σ ∧
    x = Addr.below px pz r σ

variable {PATCH_SIZE VARIANCE_DEPTH} {numX numZ : Nat}

theorem tessellate_failedAllocs_le {SQUARE_SIZE : Nat} {avgHeight : F}
    {distance : Float3 F → Float3 F → F} {p p' : Patch F} {px pz : Nat} {camPos : Float3 F}
    {viewRadius : Int} {thr fuel : Nat} {m m' : Mesh} {b : Bool}
    (h : Tessellate PATCH_SIZE VARIANCE_DEPTH SQUARE_SIZE avgHeight distance p px pz camPos
      viewRadius thr fuel m = some (p', m', b)) : m.failedAllocs ≤ m'.failedAllocs := by
  simp only [Tessellate, tessellateRoots_eq] at h
  obtain ⟨m₂, h₂, h⟩ := Option.bind_eq_some.mp h
  obtain ⟨m₁, h₁, h₂⟩ := Option.bind_eq_some.mp h₂
  obtain ⟨-, rfl, -⟩ := Prod.mk.inj_iff.mp (Option.some.inj h) |>.imp_right Prod.mk.inj_iff.mp
  exact (tessellatePaths_failedAllocs_le _ _ _ _ _ h₁).trans
    (tessellatePaths_failedAllocs_le _ _ _ _ _ h₂)

/-- **One tile's `Tessellate` refines the forest**: from a mesh that represents `S`, on a patch
of the grid, with no failed `Allocate`, it leaves a mesh that represents the least closed split
set holding `S` and what the tile asks for with the LOD parameters of `lodParams`, and it takes
no "illegal neighbor" branch of `Split`. -/
theorem tessellate_represents (SQUARE_SIZE : Nat) (avgHeight : F)
    (distance : Float3 F → Float3 F → F) (p : Patch F) {px pz : Nat} (camPos : Float3 F)
    (viewRadius : Int) (thr fuel : Nat) {m m' : Mesh} {S : Addr → Bool} {p' : Patch F} {b : Bool}
    (hR : Represents numX numZ m S) (hg : px < numX ∧ pz < numZ)
    (h : Tessellate PATCH_SIZE VARIANCE_DEPTH SQUARE_SIZE avgHeight distance p px pz camPos
      viewRadius thr fuel m = some (p', m', b))
    (hfa : m'.failedAllocs = m.failedAllocs) :
    ∃ S', Represents numX numZ m' S' ∧ LeastCover numX numZ S
      (TileRequests PATCH_SIZE VARIANCE_DEPTH p px pz
        (lodParams PATCH_SIZE SQUARE_SIZE avgHeight distance p.coors camPos viewRadius).1
        (lodParams PATCH_SIZE SQUARE_SIZE avgHeight distance p.coors camPos viewRadius).2) S' ∧
      m'.illegalLinks = m.illegalLinks := by
  simp only [Tessellate, tessellateRoots_eq] at h
  obtain ⟨m₂, h₂, h⟩ := Option.bind_eq_some.mp h
  obtain ⟨m₁, h₁, h₂⟩ := Option.bind_eq_some.mp h₂
  obtain ⟨-, rfl, -⟩ := Prod.mk.inj_iff.mp (Option.some.inj h) |>.imp_right Prod.mk.inj_iff.mp
  have hle₁ := tessellatePaths_failedAllocs_le _ _ _ _ _ h₁
  have hle₂ := tessellatePaths_failedAllocs_le _ _ _ _ _ h₂
  obtain ⟨S₁, hR₁, hc₁, -, hil₁⟩ := tessellatePaths_represents _ _ _ _ _ px pz false fuel m S []
    _ m₁ hR ⟨hg, .inl rfl⟩ rfl h₁ (by omega)
  obtain ⟨S₂, hR₂, hc₂, -, hil₂⟩ := tessellatePaths_represents _ _ _ _ _ px pz true fuel m₁ S₁ []
    _ m₂ hR₁ ⟨hg, .inl rfl⟩ rfl h₂ (by omega)
  refine ⟨S₂, hR₂, (hc₁.trans hc₂).congr fun x => ⟨?_, ?_⟩, hil₂.trans hil₁⟩
  · rintro (⟨σ, hσ, rfl⟩ | ⟨σ, hσ, rfl⟩)
    · exact ⟨false, σ, hσ, rfl⟩
    · exact ⟨true, σ, hσ, rfl⟩
  · rintro ⟨_ | _, σ, hσ, rfl⟩
    · exact .inl ⟨σ, hσ, rfl⟩
    · exact .inr ⟨σ, hσ, rfl⟩

/-- **`Tessellate` returns `true` only when none of its `Allocate` calls failed**: once an
allocation fails the pool of its thread is out of nodes and stays so for the rest of the call.
A `true` return on a tile of the grid thus means the tile got every split it asked for: from a
mesh that represents `S`, the mesh left represents the least closed split set holding `S` and
the tile's requests, and no "illegal neighbor" branch was taken. -/
theorem tessellate_true_complete (SQUARE_SIZE : Nat) (avgHeight : F)
    (distance : Float3 F → Float3 F → F) (p : Patch F) {px pz : Nat} (camPos : Float3 F)
    (viewRadius : Int) (thr fuel : Nat) {m m' : Mesh} {p' : Patch F}
    (h : Tessellate PATCH_SIZE VARIANCE_DEPTH SQUARE_SIZE avgHeight distance p px pz camPos
      viewRadius thr fuel m = some (p', m', true)) :
    m'.failedAllocs = m.failedAllocs ∧
    ∀ numX numZ S, Represents numX numZ m S → px < numX ∧ pz < numZ →
      ∃ S', Represents numX numZ m' S' ∧ LeastCover numX numZ S
        (TileRequests PATCH_SIZE VARIANCE_DEPTH p px pz
          (lodParams PATCH_SIZE SQUARE_SIZE avgHeight distance p.coors camPos viewRadius).1
          (lodParams PATCH_SIZE SQUARE_SIZE avgHeight distance p.coors camPos viewRadius).2) S' ∧
        m'.illegalLinks = m.illegalLinks := by
  have h₀ := h
  simp only [Tessellate, tessellateRoots_eq] at h
  obtain ⟨m₂, h₂, h⟩ := Option.bind_eq_some.mp h
  obtain ⟨m₁, h₁, h₂⟩ := Option.bind_eq_some.mp h₂
  simp only [Option.pure_def, Option.some.injEq, Prod.mk.injEq] at h
  obtain ⟨-, rfl, hb⟩ := h
  have hg := (tessellatePaths_poolGrows _ _ _ _ _ h₁).trans (tessellatePaths_poolGrows _ _ _ _ _ h₂)
  -- a failed allocation would have left the pool out of nodes, and the call return `false`
  have hfa := hg.failed.antisymm' (not_lt.mp fun hlt => by simp [hg.out hlt] at hb)
  exact ⟨hfa, fun _ _ S hR hgr => tessellate_represents SQUARE_SIZE avgHeight distance p camPos
    viewRadius thr fuel hR hgr h₀ hfa⟩

end Tile

set_option maxRecDepth 100000 in
/-- `Tessellate` of patch `(0, 0)` of a `2 × 1` grid of patches of side 8 with variance 100 at
heap indices 1 and 2 of `baseLeft`, from the fresh grid with pools of 1000 nodes, returns
`true`, and so with no failed `Allocate`. -/
theorem tessellate_true_complete_hot :
    ∃ p' m', Tessellate 8 7 1 0 (fun _ _ => 0) (hotPatch ⟨0, 0⟩ [1, 2] []) 0 0 ⟨0, 0, 0⟩ 400 0
      30 (freshMesh 2 1 fun _ => 1000) = some (p', m', true) ∧ m'.failedAllocs = 0 := by
  have e : (Tessellate 8 7 1 0 (fun _ _ => 0) (hotPatch ⟨0, 0⟩ [1, 2] []) 0 0 ⟨0, 0, 0⟩ 400 0 30
      (freshMesh 2 1 fun _ => 1000)).map (fun r => r.2.2) = some true := by
    with_unfolding_all decide
  obtain ⟨⟨p', m', b⟩, h, rfl⟩ := Option.map_eq_some'.mp e
  exact ⟨p', m', h, (tessellate_true_complete 1 0 _ _ _ 400 0 30 h).1⟩

/-! ### A frame -/

/-- Modelled from the spec: a call of `Patch::Tessellate` in a frame, on the patch `patch` at
grid index `(px, pz)` by worker thread `thr`. -/
structure TileCall (F : Type) where
  patch : Patch F
  px : Nat
  pz : Nat
  thr : Nat

section Frame

variable {F : Type} [LinearOrderedField F] (PATCH_SIZE VARIANCE_DEPTH : Nat)

/-- Modelled from the spec: a frame's tessellation by the mesh drawer (outside the excerpt),
`Patch::Tessellate` on each tile of `calls` in turn, with the frame's camera and view radius.
Running the calls one after the other is a modelling choice. The drawer runs tiles on worker
threads at once, keeping apart only tiles that neighbour or share a neighbour, and forced and
partner splits can still carry two such calls onto the same node: the sequences here are the
schedules in which no two calls overlap. -/
def tessellateTiles (SQUARE_SIZE : Nat) (avgHeight : F) (distance : Float3 F → Float3 F → F)
    (camPos : Float3 F) (viewRadius : Int) (fuel : Nat) : List (TileCall F) → Mesh → Option Mesh
  | [], m => some m
  | c :: calls, m => do
    let (_, m, _) ← Tessellate PATCH_SIZE VARIANCE_DEPTH SQUARE_SIZE avgHeight distance c.patch
      c.px c.pz camPos viewRadius c.thr fuel m
    tessellateTiles SQUARE_SIZE avgHeight distance camPos viewRadius fuel calls m

/-- The nodes a frame asks to split: what each tile asks for with its LOD parameters. -/
def FrameRequests (SQUARE_SIZE : Nat) (avgHeight : F) (distance : Float3 F → Float3 F → F)
    (camPos : Float3 F) (viewRadius : Int) (calls : List (TileCall F)) (x : Addr) : Prop :=
  ∃ c ∈ calls, TileRequests PATCH_SIZE VARIANCE_DEPTH c.patch c.px c.pz
    (lodParams PATCH_SIZE SQUARE_SIZE avgHeight distance c.patch.coors camPos viewRadius).1
    (lodParams PATCH_SIZE SQUARE_SIZE avgHeight distance c.patch.coors camPos viewRadius).2 x

variable {PATCH_SIZE VARIANCE_DEPTH} {numX numZ : Nat} (SQUARE_SIZE : Nat) (avgHeight : F)
  (distance : Float3 F → Float3 F → F) (camPos : Float3 F) (viewRadius : Int) (fuel : Nat)

theorem tessellateTiles_failedAllocs_le : ∀ {calls : List (TileCall F)} {m m' : Mesh},
    tessellateTiles PATCH_SIZE VARIANCE_DEPTH SQUARE_SIZE avgHeight distance camPos viewRadius
      fuel calls m = some m' → m.failedAllocs ≤ m'.failedAllocs
  | [], _, _, h => by obtain rfl := Option.some.inj h; exact le_rfl
  | c :: calls, m, m', h => by
    obtain ⟨⟨p, m₁, b⟩, h₁, h⟩ := Option.bind_eq_some.mp h
    exact (tessellate_failedAllocs_le h₁).trans (tessellateTiles_failedAllocs_le h)

/-- **A frame refines the forest**: from a mesh that represents `S`, on tiles of the grid, with
no failed `Allocate`, it leaves a mesh that represents the least closed split set holding `S`
and everything the frame asks for, whatever the order of the tiles and the threads, and it
takes no "illegal neighbor" branch of `Split`. -/
theorem tessellateTiles_refines : ∀ {calls : List (TileCall F)} {m m' : Mesh}
    {S : Addr → Bool}, Represents numX numZ m S → (∀ c ∈ calls, c.px < numX ∧ c.pz < numZ) →
    tessellateTiles PATCH_SIZE VARIANCE_DEPTH SQUARE_SIZE avgHeight distance camPos viewRadius
      fuel calls m = some m' → m'.failedAllocs = m.failedAllocs →
    ∃ S', Represents numX numZ m' S' ∧ LeastCover numX numZ S
      (FrameRequests PATCH_SIZE VARIANCE_DEPTH SQUARE_SIZE avgHeight distance camPos viewRadius
        calls) S' ∧ m'.illegalLinks = m.illegalLinks
  | [], m, m', S, hR, _, h, _ => by
    obtain rfl := Option.some.inj h
    exact ⟨S, hR, .refl fun _ ⟨_, hc, _⟩ => absurd hc (List.not_mem_nil _), rfl⟩
  | c :: calls, m, m', S, hR, hg, h, hfa => by
    obtain ⟨⟨p, m₁, b⟩, h₁, h⟩ := Option.bind_eq_some.mp h
    have hle₁ := tessellate_failedAllocs_le h₁
    have hle₂ := tessellateTiles_failedAllocs_le SQUARE_SIZE avgHeight distance camPos
      viewRadius fuel h
    obtain ⟨S₁, hR₁, hc₁, hil₁⟩ := tessellate_represents SQUARE_SIZE avgHeight distance c.patch
      camPos viewRadius c.thr fuel hR (hg c (List.mem_cons_self _ _)) h₁ (by omega)
    obtain ⟨S₂, hR₂, hc₂, hil₂⟩ := tessellateTiles_refines hR₁
      (fun c' hc' => hg c' (List.mem_cons_of_mem _ hc')) h (by omega)
    exact ⟨S₂, hR₂, (hc₁.trans hc₂).congr fun _ => by
      simp only [FrameRequests, List.mem_cons, or_and_right, exists_or, exists_eq_left],
      hil₂.trans hil₁⟩

theorem tessellateTiles_represents {calls : List (TileCall F)} {m m' : Mesh} {S : Addr → Bool}
    (hR : Represents numX numZ m S) (hg : ∀ c ∈ calls, c.px < numX ∧ c.pz < numZ)
    (h : tessellateTiles PATCH_SIZE VARIANCE_DEPTH SQUARE_SIZE avgHeight distance camPos
      viewRadius fuel calls m = some m') (hfa : m'.failedAllocs = m.failedAllocs) :
    ∃ S', Represents numX numZ m' S' ∧ LeastCover numX numZ S
      (FrameRequests PATCH_SIZE VARIANCE_DEPTH SQUARE_SIZE avgHeight distance camPos viewRadius
        calls) S' :=
  (tessellateTiles_refines SQUARE_SIZE avgHeight distance camPos viewRadius fuel hR hg h
    hfa).imp fun _ => And.imp_right And.left

end Frame

/-! ### Level-of-detail monotonicity -/

section Monotone

variable {F : Type} [LinearOrderedField F] {PATCH_SIZE VARIANCE_DEPTH : Nat}

theorem one_lt_scaled_mono {a₁ a₂ P s f₁ f₂ : F} (hP : 0 ≤ P) (hs : 0 ≤ s) (hf : 0 < f₁)
    (ha : a₁ ≤ a₂) (hf' : f₁ ≤ f₂) (h : 1 < a₁ * P * s * f₁) : 1 < a₂ * P * s * f₂ := by
  have hpos : 0 < a₁ * P * s := lt_of_mul_lt_mul_right (by rw [zero_mul]; linarith) hf.le
  have hle : a₁ * P * s ≤ a₂ * P * s :=
    mul_le_mul_of_nonneg_right (mul_le_mul_of_nonneg_right ha hP) hs
  calc 1 < a₁ * P * s * f₁ := h
    _ ≤ a₂ * P * s * f₁ := mul_le_mul_of_nonneg_right hle hf.le
    _ ≤ a₂ * P * s * f₂ := mul_le_mul_of_nonneg_left hf' (hpos.trans_le hle).le

/-- **A node that wants a split still wants one** with a larger variance ceiling and a larger
positive camera-distance factor. -/
theorem splitWanted_mono {V : List Bool → F} {lim₁ lim₂ f₁ f₂ : F} {T : Tri} {π : List Bool}
    (hf : 0 < f₁) (hf' : f₁ ≤ f₂) (hlim : lim₁ ≤ lim₂)
    (h : SplitWanted PATCH_SIZE VARIANCE_DEPTH V lim₁ f₁ T π) :
    SplitWanted PATCH_SIZE VARIANCE_DEPTH V lim₂ f₂ T π := by
  refine ⟨h.1, ?_⟩
  have h₂ := h.2
  by_cases hd : π.length < VARIANCE_DEPTH
  · simp only [hd, if_true, not_le] at h₂ ⊢
    exact one_lt_scaled_mono (Nat.cast_nonneg _)
      (Int.cast_nonneg.mpr (le_max_of_le_left (abs_nonneg _))) hf (min_le_min_left _ hlim) hf' h₂
  · simpa only [hd, if_false] using h₂

theorem lodParams_factor_pos (SQUARE_SIZE : Nat) (avgHeight : F)
    (distance : Float3 F → Float3 F → F) (coors : Int2) (camPos : Float3 F) (viewRadius : Int) :
    0 < (lodParams PATCH_SIZE SQUARE_SIZE avgHeight distance coors camPos viewRadius).1 :=
  one_div_pos.mpr (one_pos.trans_le (le_max_left _ _))

theorem tileRequests_mono {p p' : Patch F} {px pz : Nat} {f₁ f₂ lim₁ lim₂ : F}
    (hco : p'.coors = p.coors) (hvl : p'.varianceLeft = p.varianceLeft)
    (hvr : p'.varianceRight = p.varianceRight) (hf : 0 < f₁) (hf' : f₁ ≤ f₂) (hlim : lim₁ ≤ lim₂)
    {x : Addr} (hx : TileRequests PATCH_SIZE VARIANCE_DEPTH p px pz f₁ lim₁ x) :
    TileRequests PATCH_SIZE VARIANCE_DEPTH p' px pz f₂ lim₂ x := by
  obtain ⟨r, σ, hσ, rfl⟩ := hx
  have hV : (fun σ => p'.variance r (heapIdx 1 σ)) = fun σ => p.variance r (heapIdx 1 σ) := by
    cases r <;> simp [Patch.variance, hvl, hvr]
  refine ⟨r, σ, hσ.mono fun ρ hρ => ?_, rfl⟩
  rw [hV, hco]
  exact splitWanted_mono hf hf' hlim hρ

theorem lodParams_mono_viewRadius (SQUARE_SIZE : Nat) (avgHeight : F)
    (distance : Float3 F → Float3 F → F) (coors : Int2) (camPos : Float3 F)
    {viewRadius₁ viewRadius₂ : Int} (hd : ∀ q, 0 ≤ distance q camPos) (h₀ : 0 < viewRadius₁)
    (h : viewRadius₁ ≤ viewRadius₂) :
    (lodParams PATCH_SIZE SQUARE_SIZE avgHeight distance coors camPos viewRadius₁).1 ≤
      (lodParams PATCH_SIZE SQUARE_SIZE avgHeight distance coors camPos viewRadius₂).1 ∧
    (lodParams PATCH_SIZE SQUARE_SIZE avgHeight distance coors camPos viewRadius₁).2 ≤
      (lodParams PATCH_SIZE SQUARE_SIZE avgHeight distance coors camPos viewRadius₂).2 := by
  have hv : (viewRadius₁ : F) ≤ viewRadius₂ := Int.cast_le.mpr h
  refine ⟨one_div_le_one_div_of_le (one_pos.trans_le (le_max_left _ _))
    (max_le_max le_rfl (mul_le_mul_of_nonneg_left ?_ (hd _))),
    mul_le_mul_of_nonneg_right hv (by norm_num)⟩
  exact div_le_div_of_nonneg_left (by norm_num) (Int.cast_pos.mpr h₀) hv

theorem lodParams_mono_distance (SQUARE_SIZE : Nat) (avgHeight : F)
    (distance : Float3 F → Float3 F → F) (coors : Int2) {camPos₁ camPos₂ : Float3 F}
    (viewRadius : Int) (hv : 0 ≤ viewRadius)
    (hd : distance ⟨((coors.x + (PATCH_SIZE / 2 : Nat)) * SQUARE_SIZE : Int), avgHeight,
        ((coors.y + (PATCH_SIZE / 2 : Nat)) * SQUARE_SIZE : Int)⟩ camPos₂ ≤
      distance ⟨((coors.x + (PATCH_SIZE / 2 : Nat)) * SQUARE_SIZE : Int), avgHeight,
        ((coors.y + (PATCH_SIZE / 2 : Nat)) * SQUARE_SIZE : Int)⟩ camPos₁) :
    (lodParams PATCH_SIZE SQUARE_SIZE avgHeight distance coors camPos₁ viewRadius).1 ≤
      (lodParams PATCH_SIZE SQUARE_SIZE avgHeight distance coors camPos₂ viewRadius).1 ∧
    (lodParams PATCH_SIZE SQUARE_SIZE avgHeight distance coors camPos₁ viewRadius).2 =
      (lodParams PATCH_SIZE SQUARE_SIZE avgHeight distance coors camPos₂ viewRadius).2 :=
  ⟨one_div_le_one_div_of_le (one_pos.trans_le (le_max_left _ _))
    (max_le_max le_rfl (mul_le_mul_of_nonneg_right hd
      (div_nonneg (by norm_num) (Int.cast_nonneg.mpr hv)))), rfl⟩

/-- **Level-of-detail monotonicity.** Two frames tessellate tiles of the same freshly reset,
linked grid, neither with a failed `Allocate`. If every tile of the first frame is tessellated
in the second too, at the same place and with the same variance arrays, with a camera-distance
factor and a variance ceiling at least as large, then every node split after the first frame is
split after the second. -/
theorem tessellate_lod_monotone (SQUARE_SIZE : Nat) (avgHeight : F)
    (distance : Float3 F → Float3 F → F) (numX numZ : Nat) (poolSize₁ poolSize₂ : Nat → Nat)
    (camPos₁ camPos₂ : Float3 F) (viewRadius₁ viewRadius₂ : Int) (fuel₁ fuel₂ : Nat)
    (calls₁ calls₂ : List (TileCall F)) (m₁ m₂ : Mesh)
    (hg₁ : ∀ c ∈ calls₁, c.px < numX ∧ c.pz < numZ)
    (hg₂ : ∀ c ∈ calls₂, c.px < numX ∧ c.pz < numZ)
    (hlod : ∀ c ∈ calls₁, ∃ c' ∈ calls₂, c'.px = c.px ∧ c'.pz = c.pz ∧
      c'.patch.coors = c.patch.coors ∧ c'.patch.varianceLeft = c.patch.varianceLeft ∧
      c'.patch.varianceRight = c.patch.varianceRight ∧
      (lodParams PATCH_SIZE SQUARE_SIZE avgHeight distance c.patch.coors camPos₁ viewRadius₁).1 ≤
        (lodParams PATCH_SIZE SQUARE_SIZE avgHeight distance c'.patch.coors camPos₂
          viewRadius₂).1 ∧
      (lodParams PATCH_SIZE SQUARE_SIZE avgHeight distance c.patch.coors camPos₁ viewRadius₁).2 ≤
        (lodParams PATCH_SIZE SQUARE_SIZE avgHeight distance c'.patch.coors camPos₂
          viewRadius₂).2)
    (h₁ : tessellateTiles PATCH_SIZE VARIANCE_DEPTH SQUARE_SIZE avgHeight distance camPos₁
      viewRadius₁ fuel₁ calls₁ (freshMesh numX numZ poolSize₁) = some m₁)
    (h₂ : tessellateTiles PATCH_SIZE VARIANCE_DEPTH SQUARE_SIZE avgHeight distance camPos₂
      viewRadius₂ fuel₂ calls₂ (freshMesh numX numZ poolSize₂) = some m₂)
    (hfa₁ : m₁.failedAllocs = 0) (hfa₂ : m₂.failedAllocs = 0) (a : Addr)
    (ha : m₁.splitAt a = true) : m₂.splitAt a = true := by
  obtain ⟨S₁, hR₁, hc₁⟩ := tessellateTiles_represents SQUARE_SIZE avgHeight distance camPos₁
    viewRadius₁ fuel₁ (represents_freshMesh poolSize₁) hg₁ h₁ hfa₁
  obtain ⟨S₂, hR₂, hc₂⟩ := tessellateTiles_represents SQUARE_SIZE avgHeight distance camPos₂
    viewRadius₂ fuel₂ (represents_freshMesh poolSize₂) hg₂ h₂ hfa₂
  rw [hR₁.splitAt_eq] at ha
  rw [hR₂.splitAt_eq]
  -- the second frame's split set is closed and holds what the first frame asks for
  refine hc₁.least S₂ hR₂.closed (fun _ h => absurd h Bool.false_ne_true) (fun x hx => ?_) a ha
  obtain ⟨c, hc, hx⟩ := hx
  obtain ⟨c', hc', hpx, hpz, hco, hvl, hvr, hf, hlim⟩ := hlod c hc
  refine hc₂.mem x ⟨c', hc', ?_⟩
  rw [hpx, hpz]
  exact tileRequests_mono hco hvl hvr (lodParams_factor_pos _ _ _ _ _ _) hf hlim hx

end Monotone

/-- The frame of the examples below: one call, on patch `(0, 0)` of a `2 × 1` grid of patches of
side 8 whose `baseLeft` has variance 100 at heap indices 1 and 2, from the fresh grid. -/
def hotFrame (viewRadius : Int) : Option Mesh :=
  tessellateTiles 8 7 1 0 (fun _ _ => 0) ⟨0, 0, 0⟩ viewRadius 30
    [⟨hotPatch ⟨0, 0⟩ [1, 2] [], 0, 0, 0⟩] (freshMesh 2 1 fun _ => 1000)

set_option maxRecDepth 100000 in
/-- Both frames of `hotFrame` with view radii 100 and 400 run with no failed `Allocate`, and the
root `baseLeft` of patch `(0, 0)`, split by the first, is split by the second. -/
theorem tessellate_lod_monotone_wider_view :
    (hotFrame 100).map (fun m => (m.failedAllocs, m.splitAt ⟨0, 0, false, []⟩)) = some (0, true) ∧
    (hotFrame 400).map (fun m => (m.failedAllocs, m.splitAt ⟨0, 0, false, []⟩)) =
      some (0, true) := by
  have e₁ : (hotFrame 100).map (fun m => (m.failedAllocs, m.splitAt ⟨0, 0, false, []⟩)) =
      some (0, true) := by with_unfolding_all decide
  have e₂ : (hotFrame 400).map Mesh.failedAllocs = some 0 := by with_unfolding_all decide
  obtain ⟨m₁, h₁⟩ := Option.map_eq_some'.mp e₁
  obtain ⟨m₂, h₂, hfa₂⟩ := Option.map_eq_some'.mp e₂
  obtain ⟨h₁, e₁⟩ := h₁
  simp only [Prod.mk.injEq] at e₁
  have hg : ∀ c ∈ [(⟨hotPatch ⟨0, 0⟩ [1, 2] [], 0, 0, 0⟩ : TileCall ℚ)], c.px < 2 ∧ c.pz < 1 := by
    simp
  have hs₂ : m₂.splitAt ⟨0, 0, false, []⟩ = true := by
    refine tessellate_lod_monotone 1 0 (fun _ _ => 0) 2 1 _ _ ⟨0, 0, 0⟩ ⟨0, 0, 0⟩ 100 400
      30 30 _ _ m₁ m₂ hg hg ?_ h₁ h₂ e₁.1 hfa₂ _ e₁.2
    intro c hc
    rw [List.mem_singleton] at hc
    subst hc
    exact ⟨_, List.mem_singleton_self _, rfl, rfl, rfl, rfl, rfl, by norm_num [lodParams],
      by norm_num [lodParams]⟩
  exact ⟨by rw [h₁]; simp [e₁], by rw [h₂]; simp [hfa₂, hs₂]⟩

end SpringRoam
