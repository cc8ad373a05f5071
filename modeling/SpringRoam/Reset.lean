import SpringRoam.Frame

/-!
# The pools stay tidy: `CTriNodePool::Reset` clears a whole pool

`CTriNodePool::Reset` `memset`s only the slots below the cursor, "faster than calling
TriTreeNode's ctor" on all of them. That is a full reset only if no slot at or past the cursor
was ever written. This module proves that it never is, over every run, failed allocations
included: `Split` and `Tessellate` write only to roots and to slots they were handed by
`Allocate`, because every link the mesh holds names one of those (`Mesh.Tidy`).

* `Mesh.Tidy`, `Mesh.Grows`: the heap invariant, and cursors that only move forward with pool
  sizes kept;
* `split_tidy`, `tessellatePaths_tidy`, `tessellate_tidy`, `tessellateTiles_tidy`: each call
  keeps the invariant, whether or not its `Allocate` calls fail;
* `frame_reset_fresh_pool`: after any frame on the fresh grid, `Reset` gives back every pool as
  freshly built.
-/

namespace SpringRoam

/-- The default node, as the constructor and `memset` leave it, names nothing. -/
@[simp] theorem TriTreeNode.get_default (s : Slot) : ({} : TriTreeNode).get s = none := by
  cases s <;> rfl

namespace Mesh

/-! ### The invariant -/

/-- A pointer the mesh may hold, given its pools: a root, or a slot below its pool's cursor. -/
def Live (pools : Nat → CTriNodePool) : TriPtr → Prop
  | .pool thr i => i < (pools thr).nextTriNodeIdx
  | _ => True

/-- A link the mesh may hold: `nullptr`, or a live pointer. -/
def LiveLink (pools : Nat → CTriNodePool) : Option TriPtr → Prop
  | none => True
  | some q => Live pools q

/-- Every link of the node `n` is one the mesh may hold. -/
def LinksLive (pools : Nat → CTriNodePool) (n : TriTreeNode) : Prop :=
  LiveLink pools n.LeftChild ∧ LiveLink pools n.RightChild ∧ ∀ s, LiveLink pools (n.get s)

/-- **The heap invariant behind `CTriNodePool::Reset`**: every slot at or past its pool's
cursor is a default node, and every link of every node names a root or a slot below its pool's
cursor. -/
structure Tidy (m : Mesh) : Prop where
  free : ∀ thr i, (m.pools thr).nextTriNodeIdx ≤ i → m.node (.pool thr i) = {}
  live : ∀ p, LinksLive m.pools (m.node p)

/-- From `m` to `m'` no pool changed its size and no cursor moved back. -/
def Grows (m m' : Mesh) : Prop :=
  ∀ thr, (m'.pools thr).size = (m.pools thr).size ∧
    (m.pools thr).nextTriNodeIdx ≤ (m'.pools thr).nextTriNodeIdx

section Basics

variable {m m' m'' : Mesh}

theorem Grows.refl (m : Mesh) : Grows m m := fun _ => ⟨rfl, le_rfl⟩

theorem Grows.trans (h₁ : Grows m m') (h₂ : Grows m' m'') : Grows m m'' := fun thr =>
  ⟨(h₂ thr).1.trans (h₁ thr).1, (h₁ thr).2.trans (h₂ thr).2⟩

theorem Grows.of_pools (h : m'.pools = m.pools) : Grows m m' := fun thr => by rw [h]; simp

theorem Live.mono (h : Grows m m') : ∀ {p : TriPtr}, Live m.pools p → Live m'.pools p
  | .pool thr _, hp => Nat.lt_of_lt_of_le hp (h thr).2
  | .baseLeft _ _, _ => trivial
  | .baseRight _ _, _ => trivial

theorem LiveLink.mono (h : Grows m m') :
    ∀ {o : Option TriPtr}, LiveLink m.pools o → LiveLink m'.pools o
  | none, _ => trivial
  | some _, hq => Live.mono h hq

theorem LinksLive.mono (h : Grows m m') {n : TriTreeNode} (hn : LinksLive m.pools n) :
    LinksLive m'.pools n :=
  ⟨hn.1.mono h, hn.2.1.mono h, fun s => (hn.2.2 s).mono h⟩

theorem Live.ne_free {pools : Nat → CTriNodePool} {p : TriPtr} (hp : Live pools p) {thr i : Nat}
    (hi : (pools thr).nextTriNodeIdx ≤ i) : p ≠ .pool thr i := by
  rintro rfl; exact absurd hp (not_lt.mpr hi)

theorem LinksLive.put {pools : Nat → CTriNodePool} {n : TriTreeNode} (hn : LinksLive pools n)
    (s : Slot) {o : Option TriPtr} (ho : LiveLink pools o) : LinksLive pools (n.put s o) := by
  refine ⟨by simpa using hn.1, by simpa using hn.2.1, fun t => ?_⟩
  by_cases hst : s = t
  · subst hst; simpa using ho
  · rw [TriTreeNode.get_put_ne _ hst]; exact hn.2.2 t

theorem Tidy.link (h : m.Tidy) (p : TriPtr) (s : Slot) : LiveLink m.pools ((m.node p).get s) :=
  (h.live p).2.2 s

theorem Tidy.live_of_get (h : m.Tidy) {p q : TriPtr} {s : Slot} (hq : (m.node p).get s = some q) :
    Live m.pools q := by
  simpa [LiveLink, hq] using h.link p s

theorem Tidy.live_of_child (h : m.Tidy) {p q : TriPtr}
    (hq : (m.node p).LeftChild = some q ∨ (m.node p).RightChild = some q) : Live m.pools q := by
  rcases hq with hq | hq
  · simpa [LiveLink, hq] using (h.live p).1
  · simpa [LiveLink, hq] using (h.live p).2.1

theorem Tidy.congr (h : m.Tidy) (hn : m'.node = m.node) (hp : m'.pools = m.pools) : m'.Tidy :=
  ⟨fun thr i hi => by rw [hn]; exact h.free thr i (hp ▸ hi),
    fun p => by rw [hn]; exact (h.live p).mono (.of_pools hp)⟩

end Basics

/-! ### Each write keeps the invariant -/

section Writes

variable {m : Mesh} (h : m.Tidy)
include h

theorem Tidy.set {p : TriPtr} {n : TriTreeNode} (hp : Live m.pools p) (hn : LinksLive m.pools n) :
    (m.set p n).Tidy := by
  refine ⟨fun thr i hi => ?_, fun q => ?_⟩
  · rw [set_node, if_neg (hp.ne_free hi).symm]; exact h.free thr i hi
  · rw [set_node]; split_ifs
    · exact hn
    · exact h.live q

theorem Tidy.setSlot {p : TriPtr} (hp : Live m.pools p) (s : Slot) {o : Option TriPtr}
    (ho : LiveLink m.pools o) : (m.setSlot p s o).Tidy :=
  h.set hp ((h.live p).put s ho)

theorem Tidy.setChildren {p : TriPtr} (hp : Live m.pools p) {l r : Option TriPtr}
    (hl : LiveLink m.pools l) (hr : LiveLink m.pools r) : (m.setChildren p l r).Tidy :=
  h.set hp ⟨hl, hr, (h.live p).2.2⟩

theorem Tidy.allocate {thr : Nat} {o : Option (TriPtr × TriPtr)} {m' : Mesh}
    (ha : m.allocate thr = (o, m')) :
    m'.Tidy ∧ Grows m m' ∧ ∀ lc rc, o = some (lc, rc) → Live m'.pools lc ∧ Live m'.pools rc := by
  cases o with
  | none =>
    obtain ⟨-, rfl⟩ := allocate_none ha
    exact ⟨h.congr rfl rfl, .of_pools rfl, fun _ _ e => nomatch e⟩
  | some lr =>
    obtain ⟨lc, rc⟩ := lr
    obtain ⟨-, rfl, rfl, rfl⟩ := allocate_some ha
    have hg : Grows m { m with pools := Function.update m.pools thr (m.pools thr).bump } :=
      fun t => by
        by_cases ht : t = thr
        · subst ht; simp [CTriNodePool.bump]
        · simp [Function.update_noteq ht]
    refine ⟨⟨fun t i hi => h.free t i ((hg t).2.trans hi), fun p => (h.live p).mono hg⟩, hg, ?_⟩
    rintro _ _ ⟨⟩
    simp [Live, CTriNodePool.bump]

theorem Tidy.relink {c : TriPtr} (hc : Live m.pools c) (nb tri : TriPtr) (s₂ s₃ : Slot) :
    (m.relink nb tri c s₂ s₃).Tidy := by
  by_cases hnb : Live m.pools nb
  · unfold Mesh.relink
    split_ifs
    · exact h.setSlot hnb _ hc
    · exact h.setSlot hnb _ hc
    · exact h.setSlot hnb _ hc
    · exact h.congr rfl rfl
  obtain _ | _ | ⟨thr, i⟩ := nb
  iterate 2 exact absurd trivial hnb
  have hfree := h.free thr i (not_lt.mp hnb)
  simp only [Mesh.relink, hfree, TriTreeNode.get_default, reduceCtorEq, if_false]
  exact h.congr rfl rfl

theorem Tidy.linkChildren (tri : TriPtr) {lc rc : TriPtr} (hlc : Live m.pools lc)
    (hrc : Live m.pools rc) :
    (m.linkChildren tri lc rc).Tidy := by
  have h₂ := (h.setSlot hlc .base (h.link tri .left)).setSlot hlc .left
    (show LiveLink m.pools (some rc) from hrc)
  have h₄ := (h₂.setSlot hrc .base (h₂.link tri .right)).setSlot hrc .right
    (show LiveLink m.pools (some lc) from hlc)
  unfold Mesh.linkChildren
  dsimp only
  split <;> split
  · exact (h₄.relink hlc _ _ _ _).relink (by rw [relink_pools]; exact hrc) _ _ _ _
  · exact h₄.relink hrc _ _ _ _
  · exact h₄.relink hlc _ _ _ _
  · exact h₄

theorem Tidy.crossLink {lc rc bl br : TriPtr} (hlc : Live m.pools lc) (hrc : Live m.pools rc)
    (hbl : Live m.pools bl) (hbr : Live m.pools br) : (m.crossLink lc rc bl br).Tidy :=
  (((h.setSlot hbl .right (show LiveLink m.pools (some rc) from hrc)).setSlot hbr .left
    (show LiveLink m.pools (some lc) from hlc)).setSlot hlc .right
    (show LiveLink m.pools (some br) from hbr)).setSlot hrc .left
    (show LiveLink m.pools (some bl) from hbl)

end Writes

end Mesh

/-! ### Every call keeps the invariant -/

/-- **`Split` keeps the heap tidy**, whether or not its `Allocate` calls fail: it writes only to
the node it splits, to the nodes that node's links name, and to the slots `Allocate` hands
out. -/
theorem split_tidy (thr : Nat) : ∀ {fuel : Nat} {m m' : Mesh} {tri : TriPtr} {b : Bool},
    m.Tidy → Mesh.Live m.pools tri → Split thr fuel m tri = some (m', b) →
    m'.Tidy ∧ Mesh.Grows m m' := by
  intro fuel
  induction fuel with
  | zero => intro _ _ _ _ _ _ h; cases h
  | succ fuel ih =>
    intro m m' tri b h htri hs
    rcases split_some_cases thr fuel hs with ⟨-, rfl, -⟩ | ⟨-, m₁, hf, hrest⟩
    · exact ⟨h, .refl _⟩
    -- the forced split, of the node the base link names
    obtain ⟨h₁, hg₁⟩ : m₁.Tidy ∧ Mesh.Grows m m₁ := by
      unfold ForcedStep at hf
      split at hf
      · rename_i bn hbn
        split_ifs at hf
        · obtain ⟨r, hs₁⟩ := hf; exact ih h (h.live_of_get (s := .base) hbn) hs₁
        · subst hf; exact ⟨h, .refl _⟩
      · subst hf; exact ⟨h, .refl _⟩
    rcases hrest with ⟨m₂, ha, rfl, -⟩ | ⟨lc, rc, m₂, ha, -, hp⟩
    · obtain ⟨h₂, hg₂, -⟩ := h₁.allocate ha
      exact ⟨h₂.setChildren ((htri.mono hg₁).mono hg₂) trivial trivial,
        hg₁.trans (hg₂.trans (.of_pools rfl))⟩
    obtain ⟨h₂, hg₂, hl⟩ := h₁.allocate ha
    obtain ⟨hlc, hrc⟩ := hl lc rc rfl
    have h₃ := (h₂.setChildren ((htri.mono hg₁).mono hg₂) (show Mesh.LiveLink _ (some lc) from hlc)
      (show Mesh.LiveLink _ (some rc) from hrc)).linkChildren tri hlc hrc
    have hgH : Mesh.Grows m₂ ((m₂.setChildren tri (some lc) (some rc)).linkChildren tri lc rc) :=
      .of_pools (by simp)
    have hlcH := hlc.mono hgH
    have hrcH := hrc.mono hgH
    have hg₃ := hg₁.trans (hg₂.trans hgH)
    -- the end: cross-link, split the base neighbor, or clear the outer links
    unfold PartnerStep at hp
    generalize (m₂.setChildren tri (some lc) (some rc)).linkChildren tri lc rc = H at *
    split at hp
    · rename_i bn hbn
      split at hp
      · rename_i bl br hbl hbr
        subst hp
        exact ⟨h₃.crossLink hlcH hrcH (h₃.live_of_child (.inl hbl)) (h₃.live_of_child (.inr hbr)),
          hg₃.trans (.of_pools rfl)⟩
      · obtain ⟨r, hs'⟩ := hp
        obtain ⟨h', hg'⟩ := ih h₃ (h₃.live_of_get (s := .base) hbn) hs'
        exact ⟨h', hg₃.trans hg'⟩
    · subst hp
      exact ⟨(h₃.setSlot hlcH .right (show Mesh.LiveLink _ none from trivial)).setSlot hrcH .left
        (show Mesh.LiveLink _ none from trivial), hg₃.trans (.of_pools rfl)⟩

section Walk

variable {F : Type} [LinearOrderedField F] {PATCH_SIZE VARIANCE_DEPTH : Nat}
  (V : List Bool → F) (lim f : F) (thr : Nat) (T : Tri)

theorem tessellatePaths_tidy : ∀ {fuel : Nat} {m m' : Mesh} {tri : TriPtr} {π : List Bool},
    m.Tidy → Mesh.Live m.pools tri →
    tessellatePaths PATCH_SIZE VARIANCE_DEPTH V lim f thr T fuel m tri π = some m' →
    m'.Tidy ∧ Mesh.Grows m m' := by
  intro fuel
  induction fuel with
  | zero => intro _ _ _ _ _ _ h; simp [tessellatePaths] at h
  | succ fuel ih =>
    intro m m' tri π h htri hw
    by_cases hwant : SplitWanted PATCH_SIZE VARIANCE_DEPTH V lim f T π
    case neg =>
      rw [tessellatePaths_of_not_wanted V lim f thr T hwant] at hw
      obtain rfl := Option.some.inj hw
      exact ⟨h, .refl _⟩
    simp only [tessellatePaths, hwant.1, hwant.2, if_false] at hw
    obtain ⟨⟨m₁, b⟩, hs, hw⟩ := Option.bind_eq_some.mp hw
    obtain ⟨h₁, hg₁⟩ := split_tidy thr h htri hs
    split at hw
    · rename_i lc rc hlc hrc
      obtain ⟨m₂, hw₂, hw₃⟩ := Option.bind_eq_some.mp hw
      obtain ⟨h₂, hg₂⟩ := ih h₁ (h₁.live_of_child (.inl hlc)) hw₂
      obtain ⟨h₃, hg₃⟩ := ih h₂ ((h₁.live_of_child (.inr hrc)).mono hg₂) hw₃
      exact ⟨h₃, hg₁.trans (hg₂.trans hg₃)⟩
    · obtain rfl := Option.some.inj hw
      exact ⟨h₁, hg₁⟩

end Walk

section Frame

variable {F : Type} [LinearOrderedField F] {PATCH_SIZE VARIANCE_DEPTH : Nat} (SQUARE_SIZE : Nat)
  (avgHeight : F) (distance : Float3 F → Float3 F → F) (camPos : Float3 F) (viewRadius : Int)

theorem tessellate_tidy (p : Patch F) (px pz thr fuel : Nat) {m m' : Mesh} {p' : Patch F}
    {b : Bool} (h : m.Tidy)
    (ht : Tessellate PATCH_SIZE VARIANCE_DEPTH SQUARE_SIZE avgHeight distance p px pz camPos
      viewRadius thr fuel m = some (p', m', b)) : m'.Tidy ∧ Mesh.Grows m m' := by
  simp only [Tessellate, tessellateRoots_eq] at ht
  obtain ⟨m₂, ht₂, ht⟩ := Option.bind_eq_some.mp ht
  obtain ⟨m₁, ht₁, ht₂⟩ := Option.bind_eq_some.mp ht₂
  obtain ⟨-, rfl, -⟩ := Prod.mk.inj_iff.mp (Option.some.inj ht) |>.imp_right Prod.mk.inj_iff.mp
  obtain ⟨h₁, hg₁⟩ := tessellatePaths_tidy _ _ _ _ _ h
    (show Mesh.Live _ (.baseLeft px pz) from trivial) ht₁
  obtain ⟨h₂, hg₂⟩ := tessellatePaths_tidy _ _ _ _ _ h₁
    (show Mesh.Live _ (.baseRight px pz) from trivial) ht₂
  exact ⟨h₂, hg₁.trans hg₂⟩

variable (fuel : Nat)

theorem tessellateTiles_tidy : ∀ {calls : List (TileCall F)} {m m' : Mesh}, m.Tidy →
    tessellateTiles PATCH_SIZE VARIANCE_DEPTH SQUARE_SIZE avgHeight distance camPos viewRadius
      fuel calls m = some m' → m'.Tidy ∧ Mesh.Grows m m'
  | [], _, _, h, ht => by obtain rfl := Option.some.inj ht; exact ⟨h, .refl _⟩
  | c :: calls, m, m', h, ht => by
    obtain ⟨⟨p, m₁, b⟩, ht₁, ht⟩ := Option.bind_eq_some.mp ht
    obtain ⟨h₁, hg₁⟩ := tessellate_tidy SQUARE_SIZE avgHeight distance camPos viewRadius c.patch
      c.px c.pz c.thr fuel h ht₁
    obtain ⟨h₂, hg₂⟩ := tessellateTiles_tidy h₁ ht
    exact ⟨h₂, hg₁.trans hg₂⟩

end Frame

theorem tidy_freshMesh (numX numZ : Nat) (poolSize : Nat → Nat) :
    (freshMesh numX numZ poolSize).Tidy := by
  refine ⟨fun _ _ _ => rfl, fun p => ⟨?_, ?_, fun s => ?_⟩⟩
  all_goals cases p <;> (try cases s) <;>
    simp only [freshMesh, linkedRoot, TriTreeNode.get, Mesh.LiveLink, Mesh.Live] <;> split_ifs <;>
    trivial

/-! ### `Reset` -/

/-- **`Reset` clears a tidy pool**: the slots below the cursor by the `memset`, the others
because nothing wrote them. -/
theorem Mesh.Tidy.resetPool_node {m : Mesh} (h : m.Tidy) (thr i : Nat) :
    (m.resetPool thr).node (.pool thr i) = {} := by
  simp only [Mesh.resetPool, true_and]
  split_ifs with hi
  · rfl
  · exact h.free thr i (not_lt.mp hi)

section Frame

variable {F : Type} [LinearOrderedField F] {PATCH_SIZE VARIANCE_DEPTH : Nat} (SQUARE_SIZE : Nat)
  (avgHeight : F) (distance : Float3 F → Float3 F → F) (camPos : Float3 F) (viewRadius : Int)

/-- **After any frame, `CTriNodePool::Reset` gives back every pool as freshly built.** A frame
of `Tessellate` calls on the fresh grid, in any order, on any worker threads, from pools of any
sizes, and whether or not its `Allocate` calls fail, never writes a slot at or past a pool's
cursor. So `Reset`, which clears only the slots below the cursor, leaves the pool of every
thread as the fresh grid has it: the same capacity, the cursor at zero, and every slot a
default node. -/
theorem frame_reset_fresh_pool (numX numZ : Nat) (poolSize : Nat → Nat) (fuel : Nat)
    (calls : List (TileCall F)) (m : Mesh)
    (h : tessellateTiles PATCH_SIZE VARIANCE_DEPTH SQUARE_SIZE avgHeight distance camPos
      viewRadius fuel calls (freshMesh numX numZ poolSize) = some m) (thr : Nat) :
    (m.resetPool thr).pools thr = (freshMesh numX numZ poolSize).pools thr ∧
      ∀ i, (m.resetPool thr).node (.pool thr i) =
        (freshMesh numX numZ poolSize).node (.pool thr i) := by
  obtain ⟨ht, hg⟩ := tessellateTiles_tidy SQUARE_SIZE avgHeight distance camPos viewRadius fuel
    (tidy_freshMesh numX numZ poolSize) h
  refine ⟨?_, fun i => ht.resetPool_node thr i⟩
  simp only [Mesh.resetPool, Function.update_same, CTriNodePool.Reset, (hg thr).1]
  rfl

end Frame

set_option maxRecDepth 100000 in
/-- The two tiles of `roughTiles` on threads 0 and 1 with pools of 4 nodes each: both pools run
out and two `Allocate` calls fail, and `Reset` gives both pools back as freshly built. -/
theorem frame_reset_fresh_pool_exhausted :
    ∃ m, tessellateTiles 8 7 1 0 (fun _ _ => 0) ⟨0, 0, 0⟩ 4000 30 (roughTiles 0 1)
        (freshMesh 2 1 fun _ => 4) = some m ∧ m.failedAllocs = 2 ∧
      ∀ thr, (m.resetPool thr).pools thr = (freshMesh 2 1 fun _ => 4).pools thr ∧
        ∀ i, (m.resetPool thr).node (.pool thr i) =
          (freshMesh 2 1 fun _ => 4).node (.pool thr i) := by
  have e : (tessellateTiles 8 7 1 0 (fun _ _ => 0) ⟨0, 0, 0⟩ 4000 30 (roughTiles 0 1)
      (freshMesh 2 1 fun _ => 4)).map Mesh.failedAllocs = some 2 := by
    with_unfolding_all decide
  obtain ⟨m, h, hfa⟩ := Option.map_eq_some'.mp e
  exact ⟨m, h, hfa, frame_reset_fresh_pool 1 0 (fun _ _ => 0) ⟨0, 0, 0⟩ 4000 2 1 _ 30 _ m h⟩

end SpringRoam
