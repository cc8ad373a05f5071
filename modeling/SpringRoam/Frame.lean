import SpringRoam.Lod

/-!
# Whole runs on the mesh

`Split` and `Tessellate` act on one shared mesh, frame after frame. This module states what
every run of them leaves, reading the mesh through the split forest it represents:

* `Represents.inTree_of_locate` — a node of the grid found in the mesh is a node of the forest;
* `Represents.leafPaths_eq` — the walks of `GenerateIndices` read only the split set;
* `LeastCover.eq_of_closed` — two closed least covers of the same requests are equal;
* `splitRun_conforms` — every run of `Split` calls on nodes of the fresh grid in which no
  `Allocate` fails leaves a mesh that represents the least closed split set holding the nodes
  called, whatever their order, and takes no "illegal neighbor" branch of `Split`;
* `frame_conforms` — the same for every frame of `Tessellate` calls and what it asks for;
* `frame_order_independent` — a frame splits the same nodes, and `GenerateIndices` gives every
  patch the same index list, whatever the order of its tile calls, their threads and the sizes
  of the pools.
-/

namespace SpringRoam

/-! ### Reading the forest off the mesh -/

section Read

variable {numX numZ : Nat} {m m' : Mesh} {S : Addr → Bool}

theorem Represents.inTree_of_locate (hR : Represents numX numZ m S) :
    ∀ {a : Addr} {p : TriPtr}, a.InGrid numX numZ → m.locate a = some p → InTree numX numZ S a := by
  intro a
  induction a using Addr.stepInduction with
  | root px pz r => exact fun hg _ => ⟨hg, .inl rfl⟩
  | child a b ih =>
    intro p hg hp
    rw [Mesh.locate_child] at hp
    obtain ⟨q, hq, hc⟩ := Option.bind_eq_some.mp hp
    have ha := ih hg hq
    -- the parent has a child, so it is a branch, hence split
    have hl : (m.node q).IsLeaf = false := by
      cases b <;> simp_all [TriTreeNode.childLink, TriTreeNode.IsLeaf]
    refine (inTree_child a b).mpr ⟨hg, ?_⟩
    simpa [hl] using (hR.leaf a q ha hq).symm

/-- **The walks of `GenerateIndices` read only the split set**: two meshes that represent the
same split set have the same leaf paths below every node of the forest. -/
theorem Represents.leafPaths_eq (hR : Represents numX numZ m S) (hR' : Represents numX numZ m' S) :
    ∀ (fuel : Nat) (a : Addr) (p p' : TriPtr), InTree numX numZ S a → m.locate a = some p →
      m'.locate a = some p' → leafPaths fuel m p = leafPaths fuel m' p' := by
  intro fuel
  induction fuel with
  | zero => intros; rfl
  | succ fuel ih =>
    intro a p p' ha hp hp'
    have hl := hR.leaf a p ha hp
    have hl' := hR'.leaf a p' ha hp'
    cases hs : S a
    case false => simp [leafPaths, hl, hl', hs]
    case true =>
      -- a branch in both meshes, whose children are nodes of the forest
      have hc : ∀ b, InTree numX numZ S (a.child b) := fun b => (inTree_child a b).mpr ⟨ha.1, hs⟩
      obtain ⟨lc, hlc⟩ := hR.located _ (hc false)
      obtain ⟨rc, hrc⟩ := hR.located _ (hc true)
      obtain ⟨lc', hlc'⟩ := hR'.located _ (hc false)
      obtain ⟨rc', hrc'⟩ := hR'.located _ (hc true)
      have e₁ := ih _ lc lc' (hc false) hlc hlc'
      have e₂ := ih _ rc rc' (hc true) hrc hrc'
      simp only [Mesh.locate_child, hp, hp', Option.some_bind, TriTreeNode.childLink,
        Bool.false_eq_true, if_false, if_true] at hlc hrc hlc' hrc'
      simp only [leafPaths, hl, hl', hs, Bool.not_true, Bool.false_eq_true, if_false, hlc, hrc,
        hlc', hrc', e₁, e₂]

/-- Two meshes that represent the same split set give every patch of the grid the same index
list. -/
theorem Represents.generateIndices_agree (hR : Represents numX numZ m S)
    (hR' : Represents numX numZ m' S) (PATCH_SIZE fuel : Nat) {px pz : Nat} (hx : px < numX)
    (hz : pz < numZ) :
    GenerateIndices PATCH_SIZE fuel m px pz = GenerateIndices PATCH_SIZE fuel m' px pz := by
  have hroot : ∀ r, leafPaths fuel m (TriPtr.root r px pz) =
      leafPaths fuel m' (TriPtr.root r px pz) := fun r =>
    hR.leafPaths_eq hR' fuel ⟨px, pz, r, []⟩ _ _ ⟨⟨hx, hz⟩, .inl rfl⟩ rfl rfl
  simp only [generateIndices_eq, show TriPtr.baseLeft px pz = TriPtr.root false px pz from rfl,
    show TriPtr.baseRight px pz = TriPtr.root true px pz from rfl, hroot]

end Read

/-! ### Least covers -/

section Cover

variable {numX numZ : Nat} {S S₁ S₂ : Addr → Bool} {R R' : Addr → Prop}

/-- **Two closed least covers of the same requests are the same split set.** -/
theorem LeastCover.eq_of_closed (h₁ : LeastCover numX numZ S R S₁)
    (h₂ : LeastCover numX numZ S R S₂) (hc₁ : Closed numX numZ S₁) (hc₂ : Closed numX numZ S₂) :
    S₁ = S₂ :=
  funext fun x => Bool.eq_iff_iff.mpr
    ⟨h₁.least S₂ hc₂ h₂.le h₂.mem x, h₂.least S₁ hc₁ h₁.le h₁.mem x⟩

end Cover

/-! ### Runs of `Split` -/

/-- A run of `Split` calls as a client of the mesh makes them: each call names the worker thread
that makes it and the node it splits, by its place in the forest. `none` when a node is not in
the mesh, or a call has not returned within `fuel` nested calls. -/
def splitRun (fuel : Nat) : List (Nat × Addr) → Mesh → Option Mesh
  | [], m => some m
  | (thr, a) :: calls, m => do
    let tri ← m.locate a
    let (m, _) ← Split thr fuel m tri
    splitRun fuel calls m

section SplitRun

variable {numX numZ : Nat} (fuel : Nat)

theorem splitRun_failedAllocs_le : ∀ {calls : List (Nat × Addr)} {m m' : Mesh},
    splitRun fuel calls m = some m' → m.failedAllocs ≤ m'.failedAllocs
  | [], _, _, h => by obtain rfl := Option.some.inj h; exact le_rfl
  | (thr, a) :: calls, m, m', h => by
    obtain ⟨tri, -, h⟩ := Option.bind_eq_some.mp h
    obtain ⟨⟨m₁, b⟩, h₁, h⟩ := Option.bind_eq_some.mp h
    exact (split_failedAllocs_le h₁).trans (splitRun_failedAllocs_le h)

/-- **A run of `Split` calls refines the forest**: from a mesh that represents `S`, calls on
nodes of the grid with no failed `Allocate` leave a mesh that represents the least closed split
set holding `S` and the nodes called, and take no "illegal neighbor" branch. -/
theorem splitRun_represents : ∀ {calls : List (Nat × Addr)} {m m' : Mesh} {S : Addr → Bool},
    Represents numX numZ m S → (∀ c ∈ calls, c.2.InGrid numX numZ) →
    splitRun fuel calls m = some m' → m'.failedAllocs = m.failedAllocs →
    ∃ S', Represents numX numZ m' S' ∧ LeastCover numX numZ S (· ∈ calls.map Prod.snd) S' ∧
      m'.illegalLinks = m.illegalLinks
  | [], m, m', S, hR, _, h, _ => by
    obtain rfl := Option.some.inj h
    exact ⟨S, hR, .refl fun _ hx => absurd hx (List.not_mem_nil _), rfl⟩
  | (thr, a) :: calls, m, m', S, hR, hg, h, hfa => by
    obtain ⟨tri, hloc, h⟩ := Option.bind_eq_some.mp h
    obtain ⟨⟨m₁, b⟩, h₁, h⟩ := Option.bind_eq_some.mp h
    have hle₁ := split_failedAllocs_le h₁
    have hle₂ := splitRun_failedAllocs_le fuel h
    have ha := hR.inTree_of_locate (hg _ (List.mem_cons_self _ _)) hloc
    obtain ⟨S₁, hR₁, hl₁, -, hil₁⟩ :=
      split_represents thr fuel m S a tri m₁ b hR ha hloc h₁ (by omega)
    obtain ⟨S₂, hR₂, hc₂, hil₂⟩ := splitRun_represents hR₁
      (fun c hc => hg c (List.mem_cons_of_mem _ hc)) h (by omega)
    exact ⟨S₂, hR₂, (hl₁.leastCover.trans hc₂).congr fun _ => List.mem_cons.symm, hil₂.trans hil₁⟩

/-- **Every run of `Split` calls keeps the mesh conforming.** From the fresh grid, a run of
`Split` calls on nodes of the grid, by any worker threads and from pools of any sizes, in which
no `Allocate` fails, leaves a mesh that represents a closed split set: every leaf's neighbor
links name the leaves across its edges. That split set is the least closed one holding the
nodes called, so it does not depend on the order of the calls. No call takes the empty
"illegal neighbor" branches of `Split`. -/
theorem splitRun_conforms (poolSize : Nat → Nat) (calls : List (Nat × Addr)) (m' : Mesh)
    (hg : ∀ c ∈ calls, c.2.InGrid numX numZ)
    (h : splitRun fuel calls (freshMesh numX numZ poolSize) = some m')
    (hfa : m'.failedAllocs = 0) :
    ∃ S', Represents numX numZ m' S' ∧
      LeastCover numX numZ (fun _ => false) (· ∈ calls.map Prod.snd) S' ∧ m'.illegalLinks = 0 :=
  splitRun_represents fuel (represents_freshMesh poolSize) hg h hfa

end SplitRun

set_option maxRecDepth 100000 in
/-- On a `2 × 1` grid, the root `baseLeft` of patch `(0, 0)` split by thread 0 and then its left
child by thread 1 run with no failed `Allocate`. -/
theorem splitRun_conforms_two_levels :
    ∃ m', splitRun 10 [(0, ⟨0, 0, false, []⟩), (1, ⟨0, 0, false, [false]⟩)]
        (freshMesh 2 1 fun _ => 100) = some m' ∧ m'.failedAllocs = 0 ∧
      ∃ S', Represents 2 1 m' S' ∧ LeastCover 2 1 (fun _ => false)
        (· ∈ [⟨0, 0, false, []⟩, ⟨0, 0, false, [false]⟩]) S' ∧ m'.illegalLinks = 0 := by
  have e : (splitRun 10 [(0, ⟨0, 0, false, []⟩), (1, ⟨0, 0, false, [false]⟩)]
      (freshMesh 2 1 fun _ => 100)).map Mesh.failedAllocs = some 0 := by
    with_unfolding_all decide
  obtain ⟨m', h, hfa⟩ := Option.map_eq_some'.mp e
  exact ⟨m', h, hfa, splitRun_conforms 10 _ _ m' (by decide) h hfa⟩

/-! ### Frames -/

section Frame

variable {F : Type} [LinearOrderedField F] {PATCH_SIZE VARIANCE_DEPTH : Nat} (SQUARE_SIZE : Nat)
  (avgHeight : F) (distance : Float3 F → Float3 F → F) (camPos : Float3 F) (viewRadius : Int)

theorem frameRequests_of_sameTiles {calls₁ calls₂ : List (TileCall F)}
    (h : ∀ c ∈ calls₁, ∃ c' ∈ calls₂, c'.patch = c.patch ∧ c'.px = c.px ∧ c'.pz = c.pz)
    {x : Addr}
    (hx : FrameRequests PATCH_SIZE VARIANCE_DEPTH SQUARE_SIZE avgHeight distance camPos
      viewRadius calls₁ x) :
    FrameRequests PATCH_SIZE VARIANCE_DEPTH SQUARE_SIZE avgHeight distance camPos viewRadius
      calls₂ x := by
  obtain ⟨c, hc, hx⟩ := hx
  obtain ⟨c', hc', hp, hpx, hpz⟩ := h c hc
  exact ⟨c', hc', by rwa [hp, hpx, hpz]⟩

/-- **A frame does not depend on the order of its tile calls, their threads or the pool
sizes.** Two frames on the same freshly reset, linked grid, with the same camera and view
radius, that tessellate the same tiles (each tile call of one has a call of the other on the
same patch at the same grid index), in any order and any number of times, on any worker
threads, from pools of any sizes, and with no failed `Allocate`, split the same nodes, and
`GenerateIndices` gives every patch of the grid the same index list. -/
theorem frame_order_independent (numX numZ : Nat) (poolSize₁ poolSize₂ : Nat → Nat)
    (fuel₁ fuel₂ : Nat) (calls₁ calls₂ : List (TileCall F)) (m₁ m₂ : Mesh)
    (hg₁ : ∀ c ∈ calls₁, c.px < numX ∧ c.pz < numZ)
    (hg₂ : ∀ c ∈ calls₂, c.px < numX ∧ c.pz < numZ)
    (h₁₂ : ∀ c ∈ calls₁, ∃ c' ∈ calls₂, c'.patch = c.patch ∧ c'.px = c.px ∧ c'.pz = c.pz)
    (h₂₁ : ∀ c ∈ calls₂, ∃ c' ∈ calls₁, c'.patch = c.patch ∧ c'.px = c.px ∧ c'.pz = c.pz)
    (h₁ : tessellateTiles PATCH_SIZE VARIANCE_DEPTH SQUARE_SIZE avgHeight distance camPos
      viewRadius fuel₁ calls₁ (freshMesh numX numZ poolSize₁) = some m₁)
    (h₂ : tessellateTiles PATCH_SIZE VARIANCE_DEPTH SQUARE_SIZE avgHeight distance camPos
      viewRadius fuel₂ calls₂ (freshMesh numX numZ poolSize₂) = some m₂)
    (hfa₁ : m₁.failedAllocs = 0) (hfa₂ : m₂.failedAllocs = 0) :
    m₁.splitAt = m₂.splitAt ∧ ∀ fuel px pz, px < numX → pz < numZ →
      GenerateIndices PATCH_SIZE fuel m₁ px pz = GenerateIndices PATCH_SIZE fuel m₂ px pz := by
  obtain ⟨S₁, hR₁, hc₁⟩ := tessellateTiles_represents SQUARE_SIZE avgHeight distance camPos
    viewRadius fuel₁ (represents_freshMesh poolSize₁) hg₁ h₁ hfa₁
  obtain ⟨S₂, hR₂, hc₂⟩ := tessellateTiles_represents SQUARE_SIZE avgHeight distance camPos
    viewRadius fuel₂ (represents_freshMesh poolSize₂) hg₂ h₂ hfa₂
  -- both frames leave the least closed cover of the same requests
  have hS : S₁ = S₂ := hc₁.eq_of_closed (hc₂.congr fun _ =>
      ⟨frameRequests_of_sameTiles _ _ _ _ _ h₂₁, frameRequests_of_sameTiles _ _ _ _ _ h₁₂⟩)
    hR₁.closed hR₂.closed
  subst hS
  exact ⟨funext fun a => by rw [hR₁.splitAt_eq, hR₂.splitAt_eq],
    fun fuel _ _ hx hz => hR₁.generateIndices_agree hR₂ PATCH_SIZE fuel hx hz⟩

/-- **Every frame keeps the mesh conforming.** From the freshly reset, linked grid, a frame of
`Tessellate` calls on tiles of the grid, in any order, on any worker threads and from pools of
any sizes, in which no `Allocate` fails, leaves a mesh that represents the least closed split
set holding everything the frame asks for, and no `Split` of it takes the empty
"illegal neighbor" branches. -/
theorem frame_conforms (numX numZ : Nat) (poolSize : Nat → Nat) (fuel : Nat)
    (calls : List (TileCall F)) (m' : Mesh) (hg : ∀ c ∈ calls, c.px < numX ∧ c.pz < numZ)
    (h : tessellateTiles PATCH_SIZE VARIANCE_DEPTH SQUARE_SIZE avgHeight distance camPos
      viewRadius fuel calls (freshMesh numX numZ poolSize) = some m')
    (hfa : m'.failedAllocs = 0) :
    ∃ S', Represents numX numZ m' S' ∧ LeastCover numX numZ (fun _ => false)
      (FrameRequests PATCH_SIZE VARIANCE_DEPTH SQUARE_SIZE avgHeight distance camPos viewRadius
        calls) S' ∧ m'.illegalLinks = 0 :=
  tessellateTiles_refines SQUARE_SIZE avgHeight distance camPos viewRadius fuel
    (represents_freshMesh poolSize) hg h hfa

end Frame

/-- The two tile calls of the example below: patch `(0, 0)` of a `2 × 1` grid of patches of side
8 with variance 100 at heap indices 1 and 2 of `baseLeft`, and patch `(1, 0)` with variance 100
at index 1 of `baseLeft` and 1 and 2 of `baseRight`, on threads `thr₀` and `thr₁`. -/
def roughTiles (thr₀ thr₁ : Nat) : List (TileCall ℚ) :=
  [⟨hotPatch ⟨0, 0⟩ [1, 2] [], 0, 0, thr₀⟩, ⟨hotPatch ⟨8, 0⟩ [1] [1, 2], 1, 0, thr₁⟩]

set_option maxRecDepth 100000 in
/-- The two tiles of `roughTiles` in either order, on different threads and from pools of 1000
and of 60 nodes, run with no failed `Allocate` and split the same nodes. -/
theorem frame_order_independent_swapped :
    ∃ m₁ m₂, tessellateTiles 8 7 1 0 (fun _ _ => 0) ⟨0, 0, 0⟩ 4000 30 (roughTiles 0 0)
        (freshMesh 2 1 fun _ => 1000) = some m₁ ∧
      tessellateTiles 8 7 1 0 (fun _ _ => 0) ⟨0, 0, 0⟩ 4000 30 (roughTiles 1 0).reverse
        (freshMesh 2 1 fun _ => 60) = some m₂ ∧
      m₁.failedAllocs = 0 ∧ m₂.failedAllocs = 0 ∧ m₁.splitAt = m₂.splitAt := by
  have e₁ : (tessellateTiles 8 7 1 0 (fun _ _ => 0) ⟨0, 0, 0⟩ 4000 30 (roughTiles 0 0)
      (freshMesh 2 1 fun _ => 1000)).map Mesh.failedAllocs = some 0 := by
    with_unfolding_all decide
  have e₂ : (tessellateTiles 8 7 1 0 (fun _ _ => 0) ⟨0, 0, 0⟩ 4000 30 (roughTiles 1 0).reverse
      (freshMesh 2 1 fun _ => 60)).map Mesh.failedAllocs = some 0 := by
    with_unfolding_all decide
  obtain ⟨m₁, h₁, hfa₁⟩ := Option.map_eq_some'.mp e₁
  obtain ⟨m₂, h₂, hfa₂⟩ := Option.map_eq_some'.mp e₂
  have hg : ∀ thr₀ thr₁, ∀ c ∈ roughTiles thr₀ thr₁, c.px < 2 ∧ c.pz < 1 := by
    simp [roughTiles]
  have hsame : ∀ thr₀ thr₁ thr₀' thr₁', ∀ c ∈ roughTiles thr₀ thr₁, ∃ c' ∈ roughTiles thr₀' thr₁',
      c'.patch = c.patch ∧ c'.px = c.px ∧ c'.pz = c.pz := by
    intro _ _ _ _ c hc
    simp only [roughTiles, List.mem_cons, List.mem_singleton, List.not_mem_nil, or_false] at hc
    rcases hc with rfl | rfl
    · exact ⟨_, List.mem_cons_self _ _, rfl, rfl, rfl⟩
    · exact ⟨_, List.mem_cons_of_mem _ (List.mem_singleton_self _), rfl, rfl, rfl⟩
  refine ⟨m₁, m₂, h₁, h₂, hfa₁, hfa₂,
    (frame_order_independent 1 0 (fun _ _ => 0) ⟨0, 0, 0⟩ 4000 2 1 _ _ 30 30 _ _ m₁ m₂
      (hg 0 0) (by simpa using hg 1 0) ?_ ?_ h₁ h₂ hfa₁ hfa₂).1⟩
  · intro c hc
    obtain ⟨c', hc', h⟩ := hsame 0 0 1 0 c hc
    exact ⟨c', List.mem_reverse.mpr hc', h⟩
  · intro c hc
    exact hsame 1 0 0 0 c (List.mem_reverse.mp hc)

set_option maxRecDepth 100000 in
/-- The two tiles of `roughTiles` on one thread, from pools of 1000 nodes, run with no failed
`Allocate`. -/
theorem frame_conforms_rough :
    ∃ m', tessellateTiles 8 7 1 0 (fun _ _ => 0) ⟨0, 0, 0⟩ 4000 30 (roughTiles 0 0)
        (freshMesh 2 1 fun _ => 1000) = some m' ∧ m'.failedAllocs = 0 ∧
      ∃ S', Represents 2 1 m' S' ∧ LeastCover 2 1 (fun _ => false)
        (FrameRequests 8 7 1 0 (fun _ _ => 0) ⟨0, 0, 0⟩ 4000 (roughTiles 0 0)) S' ∧
        m'.illegalLinks = 0 := by
  have e : (tessellateTiles 8 7 1 0 (fun _ _ => 0) ⟨0, 0, 0⟩ 4000 30 (roughTiles 0 0)
      (freshMesh 2 1 fun _ => 1000)).map Mesh.failedAllocs = some 0 := by
    with_unfolding_all decide
  obtain ⟨m', h, hfa⟩ := Option.map_eq_some'.mp e
  exact ⟨m', h, hfa, frame_conforms 1 0 (fun _ _ => 0) ⟨0, 0, 0⟩ 4000 2 1 _ 30 _ m'
    (by simp [roughTiles]) h hfa⟩

end SpringRoam
