import SpringRoam.Bintree
import SpringRoam.SplitSpec

/-!
# `Split` refines the split forest

The mesh is read as a forest by following child links from the roots (`Mesh.locate`).
`Represents m S` says that the mesh `m` is the forest whose split nodes are `S`: every node of
the forest is found, split exactly when it is in `S`, at a pointer of its own; every other node
of the pools is free; and every leaf's neighbor links point at the leaves `across` it.

* `relink_get`, `linkChildren_get_other`: the link surgery of `Split` stated slot by slot;
* `split_poolGrows`: a call only fills the pool of its thread, and leaves it out of nodes once
  an allocation failed;
* `split_represents`: a call of `Split` in which no `Allocate` fails leaves a mesh that
  represents the least closed split set that holds the old one and the node split, and takes
  no "illegal neighbor" branch;
* `represents_freshMesh`, `split_returns`: the fresh grid represents the empty forest, and on a
  mesh that represents a forest every call of `Split` returns within the depth of its node
  plus two nested calls.
-/

namespace SpringRoam

/-- The child link `b` of a node: `RightChild` for `true`, as `Mesh.nodeAt` follows it. -/
def TriTreeNode.childLink (n : TriTreeNode) (b : Bool) : Option TriPtr :=
  if b then n.RightChild else n.LeftChild

/-- No two slots of the node name `q`. -/
def TriTreeNode.NamesOnce (n : TriTreeNode) (q : TriPtr) : Prop :=
  ∀ s t, n.get s = some q → n.get t = some q → s = t

namespace Mesh

/-- The node at the steps `ρ` (last step first) below root `r` of the patch at `(px, pz)`. -/
def locateFrom (m : Mesh) (px pz : Nat) (r : Bool) : List Bool → Option TriPtr
  | [] => some (TriPtr.root r px pz)
  | b :: ρ => (m.locateFrom px pz r ρ).bind fun p => (m.node p).childLink b

/-- **Where the node `a` of the forest is in the mesh**: its root, then the child links along
its steps. -/
def locate (m : Mesh) (a : Addr) : Option TriPtr := m.locateFrom a.px a.pz a.root a.steps

/-- Whether the node `a` is in the mesh and split. -/
def splitAt (m : Mesh) (a : Addr) : Bool :=
  match m.locate a with
  | some p => !(m.node p).IsLeaf
  | none => false

@[simp] theorem locate_root (m : Mesh) (px pz : Nat) (r : Bool) :
    m.locate ⟨px, pz, r, []⟩ = some (TriPtr.root r px pz) := rfl

@[simp] theorem locate_child (m : Mesh) (a : Addr) (b : Bool) :
    m.locate (a.child b) = (m.locate a).bind fun p => (m.node p).childLink b := rfl

theorem locate_eq_of_children {m m' : Mesh}
    (h : ∀ p, (m'.node p).LeftChild = (m.node p).LeftChild ∧
      (m'.node p).RightChild = (m.node p).RightChild) (a : Addr) :
    m'.locate a = m.locate a := by
  induction a using Addr.stepInduction with
  | root => rfl
  | child a b ih =>
    simp only [locate_child, ih, TriTreeNode.childLink]
    cases b <;> simp [h]

/-! ### The link surgery, slot by slot -/

theorem relink_get (m : Mesh) {nb tri c : TriPtr} {s₂ s₃ : Slot}
    (hall : ∀ s, s = .base ∨ s = s₂ ∨ s = s₃) (hu : (m.node nb).NamesOnce tri) (p : TriPtr)
    (s : Slot) : ((m.relink nb tri c s₂ s₃).node p).get s =
      if p = nb ∧ (m.node nb).get s = some tri then some c else (m.node p).get s := by
  have key : ∀ s₀, (m.node nb).get s₀ = some tri → ((m.setSlot nb s₀ (some c)).node p).get s =
      if p = nb ∧ (m.node nb).get s = some tri then some c else (m.node p).get s := by
    intro s₀ h₀
    by_cases hp : p = nb
    · subst hp
      by_cases hs : s = s₀
      · subst hs; simp [h₀]
      · rw [setSlot_node, if_pos rfl, TriTreeNode.get_put_ne _ (Ne.symm hs),
          if_neg fun h => hs (hu _ _ h.2 h₀)]
    · rw [setSlot_node, if_neg hp, if_neg fun h => hp h.1]
  unfold relink
  by_cases h₁ : (m.node nb).BaseNeighbor = some tri
  · rw [if_pos h₁]; exact key .base h₁
  rw [if_neg h₁]
  by_cases h₂ : (m.node nb).get s₂ = some tri
  · rw [if_pos h₂]; exact key s₂ h₂
  rw [if_neg h₂]
  by_cases h₃ : (m.node nb).get s₃ = some tri
  · rw [if_pos h₃]; exact key s₃ h₃
  rw [if_neg h₃, if_neg]
  rintro ⟨-, h⟩
  rcases hall s with rfl | rfl | rfl
  exacts [h₁ h, h₂ h, h₃ h]

theorem relink_node_ne (m : Mesh) {nb tri c p : TriPtr} (s₂ s₃ : Slot) (hp : p ≠ nb) :
    (m.relink nb tri c s₂ s₃).node p = m.node p := by
  unfold relink; split_ifs <;> simp [hp]

theorem relink_illegalLinks (m : Mesh) {nb tri c : TriPtr} {s₂ s₃ : Slot}
    (hall : ∀ s, s = .base ∨ s = s₂ ∨ s = s₃) (h : ∃ s, (m.node nb).get s = some tri) :
    (m.relink nb tri c s₂ s₃).illegalLinks = m.illegalLinks := by
  obtain ⟨s, hs⟩ := h
  unfold relink
  split_ifs with h₁ h₂ h₃ <;> try rfl
  rcases hall s with rfl | rfl | rfl
  exacts [absurd hs h₁, absurd hs h₂, absurd hs h₃]

@[simp] theorem relink_failedAllocs (m : Mesh) (nb tri c : TriPtr) (s₂ s₃ : Slot) :
    (m.relink nb tri c s₂ s₃).failedAllocs = m.failedAllocs := by
  unfold relink; split_ifs <;> rfl

@[simp] theorem relink_pools (m : Mesh) (nb tri c : TriPtr) (s₂ s₃ : Slot) :
    (m.relink nb tri c s₂ s₃).pools = m.pools := by
  unfold relink; split_ifs <;> rfl

@[simp] theorem linkChildren_failedAllocs (m : Mesh) (tri lc rc : TriPtr) :
    (m.linkChildren tri lc rc).failedAllocs = m.failedAllocs := by
  unfold linkChildren; dsimp only; split <;> split <;> simp

@[simp] theorem linkChildren_pools (m : Mesh) (tri lc rc : TriPtr) :
    (m.linkChildren tri lc rc).pools = m.pools := by
  unfold linkChildren; dsimp only; split <;> split <;> simp

@[simp] theorem crossLink_failedAllocs (m : Mesh) (lc rc bl br : TriPtr) :
    (m.crossLink lc rc bl br).failedAllocs = m.failedAllocs := rfl

@[simp] theorem crossLink_pools (m : Mesh) (lc rc bl br : TriPtr) :
    (m.crossLink lc rc bl br).pools = m.pools := rfl

theorem allocate_failedAllocs {m m' : Mesh} {thr : Nat} {o : Option (TriPtr × TriPtr)}
    (h : m.allocate thr = (o, m')) :
    m'.failedAllocs = m.failedAllocs + if o.isSome then 0 else 1 := by
  cases o with
  | none => rw [(allocate_none h).2]; rfl
  | some o => obtain ⟨lc, rc⟩ := o; rw [(allocate_some h).2.2.2]; rfl

section LinkChildren

variable {m : Mesh} {tri lc rc : TriPtr} (hlc : lc ≠ tri) (hrc : rc ≠ tri)
  (hL : ∀ l, (m.node tri).LeftNeighbor = some l →
    l ≠ lc ∧ l ≠ rc ∧ l ≠ tri ∧ (m.node l).NamesOnce tri)
  (hR : ∀ r, (m.node tri).RightNeighbor = some r →
    r ≠ lc ∧ r ≠ rc ∧ r ≠ tri ∧ (m.node r).NamesOnce tri)
include hlc hrc hL hR

theorem linkChildren_get_other {p : TriPtr} (hp₁ : p ≠ lc) (hp₂ : p ≠ rc) (s : Slot) :
    ((m.linkChildren tri lc rc).node p).get s =
      if (m.node tri).LeftNeighbor = some p ∧ (m.node p).get s = some tri then some lc
      else if (m.node tri).RightNeighbor = some p ∧ (m.node p).get s = some tri then some rc
      else (m.node p).get s := by
  unfold linkChildren
  simp only [setSlot_node, if_neg hlc.symm, if_neg hrc.symm]
  generalize hm₄ : (((m.setSlot lc .base (m.node tri).LeftNeighbor).setSlot lc .left
    (some rc)).setSlot rc .base (m.node tri).RightNeighbor).setSlot rc .right (some lc) = m₄
  have h₄ : ∀ q, q ≠ lc → q ≠ rc → m₄.node q = m.node q := by
    intro q h₁ h₂; subst hm₄; simp [h₁, h₂]
  have hall₁ : ∀ s : Slot, s = .base ∨ s = .left ∨ s = .right := by intro s; cases s <;> simp
  have hall₂ : ∀ s : Slot, s = .base ∨ s = .right ∨ s = .left := by intro s; cases s <;> simp
  cases hl : (m.node tri).LeftNeighbor with
  | none =>
    simp only [h₄ tri hlc.symm hrc.symm]
    cases hr : (m.node tri).RightNeighbor with
    | none => simp [h₄ p hp₁ hp₂]
    | some r =>
      obtain ⟨hr₁, hr₂, -, hr₄⟩ := hR r hr
      simp only [reduceCtorEq, false_and, if_false]
      rw [relink_get _ hall₂ (by rwa [h₄ r hr₁ hr₂]), h₄ p hp₁ hp₂, h₄ r hr₁ hr₂]
      by_cases hpr : p = r
      · subst hpr; simp
      · simp [hpr, Ne.symm hpr]
  | some l =>
    obtain ⟨hl₁, hl₂, hl₃, hl₄⟩ := hL l hl
    have hlt : (m₄.relink l tri lc .left .right).node tri = m.node tri := by
      rw [relink_node_ne _ _ _ hl₃.symm, h₄ tri hlc.symm hrc.symm]
    rw [hlt]
    cases hr : (m.node tri).RightNeighbor with
    | none =>
      simp only [reduceCtorEq, false_and, if_false]
      rw [relink_get _ hall₁ (by rwa [h₄ l hl₁ hl₂]), h₄ p hp₁ hp₂, h₄ l hl₁ hl₂]
      by_cases hpl : p = l
      · subst hpl; simp
      · simp [hpl, Ne.symm hpl]
    | some r =>
      obtain ⟨hr₁, hr₂, -, hr₄⟩ := hR r hr
      have hr₅ : ((m₄.relink l tri lc .left .right).node r).NamesOnce tri := by
        have key : ∀ s, ((m₄.relink l tri lc .left .right).node r).get s = some tri →
            (m.node r).get s = some tri := by
          intro s hs
          rw [relink_get _ hall₁ (by rwa [h₄ l hl₁ hl₂]), h₄ r hr₁ hr₂] at hs
          split_ifs at hs
          · exact absurd (Option.some.inj hs) hlc
          · exact hs
        exact fun s t hs ht => hr₄ s t (key s hs) (key t ht)
      rw [relink_get _ hall₂ hr₅, relink_get _ hall₁ (by rwa [h₄ l hl₁ hl₂]),
        relink_get _ hall₁ (by rwa [h₄ l hl₁ hl₂]), h₄ p hp₁ hp₂, h₄ r hr₁ hr₂, h₄ l hl₁ hl₂]
      -- what is left is about the old slots of `p`, `l` and `r` only
      clear hm₄ hr₅ hlt h₄ hall₁ hall₂ hL hR hl₄ hr₄ hl hr
      split_ifs <;> first | rfl | simp_all

theorem linkChildren_node_children (hlr : lc ≠ rc) :
    (m.linkChildren tri lc rc).node lc =
      ((m.node lc).put .base (m.node tri).LeftNeighbor).put .left (some rc) ∧
    (m.linkChildren tri lc rc).node rc =
      ((m.node rc).put .base (m.node tri).RightNeighbor).put .right (some lc) := by
  unfold linkChildren
  simp only [setSlot_node, if_neg hlc.symm, if_neg hrc.symm]
  cases hl : (m.node tri).LeftNeighbor with
  | none =>
    cases hr : (m.node tri).RightNeighbor with
    | none => simp [hlr, Ne.symm hlr, Ne.symm hlc, Ne.symm hrc, hr]
    | some r =>
      obtain ⟨hr₁, hr₂, -⟩ := hR r hr
      simp [relink_node_ne, Ne.symm hr₁, Ne.symm hr₂, hlr, Ne.symm hlr, Ne.symm hlc, Ne.symm hrc,
        hr]
  | some l =>
    obtain ⟨hl₁, hl₂, hl₃, -⟩ := hL l hl
    cases hr : (m.node tri).RightNeighbor with
    | none => simp [relink_node_ne, Ne.symm hl₁, Ne.symm hl₂, Ne.symm hl₃, hlr, Ne.symm hlr,
        Ne.symm hlc, Ne.symm hrc, hr]
    | some r =>
      obtain ⟨hr₁, hr₂, -⟩ := hR r hr
      simp [relink_node_ne, Ne.symm hl₁, Ne.symm hl₂, Ne.symm hl₃, Ne.symm hr₁, Ne.symm hr₂, hlr,
        Ne.symm hlr, Ne.symm hlc, Ne.symm hrc, hr]

/-- **`linkChildren` takes no "illegal neighbor" branch** when each leg neighbor of the parent
names it and the two are different nodes. -/
theorem linkChildren_illegalLinks
    (hnL : ∀ l, (m.node tri).LeftNeighbor = some l → ∃ s, (m.node l).get s = some tri)
    (hnR : ∀ r, (m.node tri).RightNeighbor = some r → ∃ s, (m.node r).get s = some tri)
    (hLR : ∀ l, (m.node tri).LeftNeighbor = some l → (m.node tri).RightNeighbor ≠ some l) :
    (m.linkChildren tri lc rc).illegalLinks = m.illegalLinks := by
  unfold linkChildren
  simp only [setSlot_node, if_neg hlc.symm, if_neg hrc.symm]
  generalize hm₄ : (((m.setSlot lc .base (m.node tri).LeftNeighbor).setSlot lc .left
    (some rc)).setSlot rc .base (m.node tri).RightNeighbor).setSlot rc .right (some lc) = m₄
  have h₄ : ∀ q, q ≠ lc → q ≠ rc → m₄.node q = m.node q := by
    intro q h₁ h₂; subst hm₄; simp [h₁, h₂]
  have hi₄ : m₄.illegalLinks = m.illegalLinks := by subst hm₄; rfl
  have hall₁ : ∀ s : Slot, s = .base ∨ s = .left ∨ s = .right := by intro s; cases s <;> simp
  have hall₂ : ∀ s : Slot, s = .base ∨ s = .right ∨ s = .left := by intro s; cases s <;> simp
  cases hl : (m.node tri).LeftNeighbor with
  | none =>
    simp only [h₄ tri hlc.symm hrc.symm]
    cases hr : (m.node tri).RightNeighbor with
    | none => exact hi₄
    | some r =>
      obtain ⟨hr₁, hr₂, -⟩ := hR r hr
      obtain ⟨s, hs⟩ := hnR r hr
      rw [relink_illegalLinks _ hall₂ ⟨s, by rw [h₄ r hr₁ hr₂]; exact hs⟩, hi₄]
  | some l =>
    obtain ⟨hl₁, hl₂, hl₃, -⟩ := hL l hl
    obtain ⟨s, hs⟩ := hnL l hl
    have hlt : (m₄.relink l tri lc .left .right).node tri = m.node tri := by
      rw [relink_node_ne _ _ _ hl₃.symm, h₄ tri hlc.symm hrc.symm]
    have hil : (m₄.relink l tri lc .left .right).illegalLinks = m.illegalLinks := by
      rw [relink_illegalLinks _ hall₁ ⟨s, by rw [h₄ l hl₁ hl₂]; exact hs⟩, hi₄]
    rw [hlt]
    cases hr : (m.node tri).RightNeighbor with
    | none => exact hil
    | some r =>
      obtain ⟨hr₁, hr₂, -⟩ := hR r hr
      obtain ⟨s', hs'⟩ := hnR r hr
      have hrl : r ≠ l := fun e => hLR l hl (e ▸ hr)
      rw [relink_illegalLinks _ hall₂
        ⟨s', by rw [relink_node_ne _ _ _ hrl, h₄ r hr₁ hr₂]; exact hs'⟩, hil]

end LinkChildren

end Mesh

theorem PartnerStep.failedAllocs_le {thr fuel : Nat} {m m' : Mesh} {tri lc rc : TriPtr}
    (ih : ∀ {m m' : Mesh} {tri : TriPtr} {b : Bool}, Split thr fuel m tri = some (m', b) →
      m.failedAllocs ≤ m'.failedAllocs)
    (hp : PartnerStep thr fuel m tri lc rc m') : m.failedAllocs ≤ m'.failedAllocs := by
  unfold PartnerStep at hp
  split at hp
  · split at hp
    · subst hp; simp
    · obtain ⟨r, hs⟩ := hp; exact ih hs
  · subst hp; simp

/-- **`Split` never takes back a failed `Allocate`**: the count of failed ones only grows. -/
theorem split_failedAllocs_le {thr : Nat} : ∀ {fuel : Nat} {m m' : Mesh} {tri : TriPtr} {b : Bool},
    Split thr fuel m tri = some (m', b) → m.failedAllocs ≤ m'.failedAllocs := by
  intro fuel
  induction fuel with
  | zero => intro _ _ _ _ h; cases h
  | succ fuel ih =>
    intro m m' tri b h
    rcases split_some_cases thr fuel h with ⟨-, rfl, -⟩ | ⟨-, m₁, hf, hrest⟩
    · exact le_rfl
    have h₁ : m.failedAllocs ≤ m₁.failedAllocs :=
      hf.keeps (P := fun m₁ => m.failedAllocs ≤ m₁.failedAllocs) le_rfl fun _ _ _ hs => ih hs
    rcases hrest with ⟨m₂, ha, rfl, -⟩ | ⟨lc, rc, m₂, ha, -, hp⟩
    · rw [Mesh.setChildren_failedAllocs, Mesh.allocate_failedAllocs ha]; omega
    · have h₂ := hp.failedAllocs_le ih
      simp only [Mesh.linkChildren_failedAllocs, Mesh.setChildren_failedAllocs,
        Mesh.allocate_failedAllocs ha] at h₂
      omega

theorem split_reciprocal_allocates {thr fuel : Nat} {H m' : Mesh} {bn tri : TriPtr} {r : Bool}
    (hleaf : (H.node bn).IsLeaf = true) (hbase : (H.node bn).BaseNeighbor = some tri)
    (htri : (H.node tri).BaseNeighbor = some bn) (hs : Split thr fuel H bn = some (m', r))
    (hfa : m'.failedAllocs = H.failedAllocs) :
    ∃ f nl nr m₅, H.allocate thr = (some (nl, nr), m₅) ∧
      PartnerStep thr f ((m₅.setChildren bn (some nl) (some nr)).linkChildren bn nl nr) bn nl nr
        m' := by
  cases fuel with
  | zero => cases hs
  | succ f =>
    rcases split_some_cases thr f hs with ⟨hl, -⟩ | ⟨-, m₄, hf, hrest⟩
    · simp [hleaf] at hl
    have hm₄ : m₄ = H := by
      unfold ForcedStep at hf
      rw [hbase] at hf
      simpa [htri] using hf
    subst hm₄
    rcases hrest with ⟨m₅, ha₂, rfl, -⟩ | ⟨nl, nr, m₅, ha₂, -, hp₂⟩
    · have := Mesh.allocate_failedAllocs ha₂
      simp only [Mesh.setChildren_failedAllocs, Option.isSome_none, Bool.false_eq_true,
        if_false] at hfa this
      omega
    · exact ⟨f, nl, nr, m₅, ha₂, hp₂⟩

/-! ### The pool of the calling thread -/

/-- What a call does to the pool of thread `thr`: its capacity stays, its cursor does not move
back, and failed allocations are only added, each leaving the pool out of nodes. -/
structure PoolGrows (thr : Nat) (m m' : Mesh) : Prop where
  size : (m'.pools thr).size = (m.pools thr).size
  cursor : (m.pools thr).nextTriNodeIdx ≤ (m'.pools thr).nextTriNodeIdx
  failed : m.failedAllocs ≤ m'.failedAllocs
  out : m.failedAllocs < m'.failedAllocs → (m'.pools thr).OutOfNodes = true

namespace PoolGrows

variable {thr : Nat} {m m₁ m₂ : Mesh}

theorem refl (m : Mesh) : PoolGrows thr m m :=
  ⟨rfl, le_rfl, le_rfl, fun h => absurd h (lt_irrefl _)⟩

theorem of_eq (hp : m₁.pools = m.pools) (hf : m₁.failedAllocs = m.failedAllocs) :
    PoolGrows thr m m₁ :=
  ⟨by rw [hp], by rw [hp], hf.ge, fun h => absurd h (by omega)⟩

theorem trans (h₁ : PoolGrows thr m m₁) (h₂ : PoolGrows thr m₁ m₂) : PoolGrows thr m m₂ where
  size := h₂.size.trans h₁.size
  cursor := h₁.cursor.trans h₂.cursor
  failed := h₁.failed.trans h₂.failed
  out h := by
    rcases lt_or_le m₁.failedAllocs m₂.failedAllocs with h' | h'
    · exact h₂.out h'
    -- the pool ran out in the first part and stays out
    have h₀ := h₁.out (by have := h₁.failed; omega)
    simp only [CTriNodePool.OutOfNodes, decide_eq_true_eq] at h₀ ⊢
    have := h₂.size; have := h₂.cursor; omega

end PoolGrows

theorem Mesh.allocate_poolGrows {m m' : Mesh} {thr : Nat} {o : Option (TriPtr × TriPtr)}
    (h : m.allocate thr = (o, m')) : PoolGrows thr m m' := by
  cases o with
  | none =>
    obtain ⟨hout, rfl⟩ := Mesh.allocate_none h
    exact ⟨rfl, le_rfl, Nat.le_succ _, fun _ => hout⟩
  | some _ =>
    obtain ⟨-, -, -, rfl⟩ := Mesh.allocate_some h
    exact ⟨by simp [CTriNodePool.bump], by simp [CTriNodePool.bump], le_rfl,
      fun h => absurd h (lt_irrefl _)⟩

/-- **A call of `Split` only fills the pool of its thread**, and leaves it out of nodes when one
of its allocations failed. -/
theorem split_poolGrows {thr : Nat} : ∀ {fuel : Nat} {m m' : Mesh} {tri : TriPtr} {b : Bool},
    Split thr fuel m tri = some (m', b) → PoolGrows thr m m' := by
  intro fuel
  induction fuel with
  | zero => intro _ _ _ _ h; cases h
  | succ fuel ih =>
    intro m m' tri b h
    rcases split_some_cases thr fuel h with ⟨-, rfl, -⟩ | ⟨-, m₁, hf, hrest⟩
    · exact .refl _
    have h₁ : PoolGrows thr m m₁ :=
      hf.keeps (P := PoolGrows thr m) (.refl m) fun _ _ _ hs => ih hs
    rcases hrest with ⟨m₂, ha, rfl, -⟩ | ⟨lc, rc, m₂, ha, -, hp⟩
    · exact h₁.trans ((Mesh.allocate_poolGrows ha).trans (.of_eq rfl rfl))
    have h₂ : PoolGrows thr m ((m₂.setChildren tri (some lc) (some rc)).linkChildren tri lc rc) :=
      h₁.trans ((Mesh.allocate_poolGrows ha).trans (.of_eq (by simp) (by simp)))
    unfold PartnerStep at hp
    split at hp
    · split at hp
      · subst hp; exact h₂.trans (.of_eq rfl rfl)
      · obtain ⟨r, hs⟩ := hp; exact h₂.trans (ih hs)
    · subst hp; exact h₂.trans (.of_eq rfl rfl)

theorem TriPtr.root_inj {r r' : Bool} {px pz px' pz' : Nat}
    (h : TriPtr.root r px pz = TriPtr.root r' px' pz') : r = r' ∧ px = px' ∧ pz = pz' := by
  cases r <;> cases r' <;> simp_all [TriPtr.root]

theorem TriPtr.root_ne_pool (r : Bool) (px pz thr i : Nat) : TriPtr.root r px pz ≠ .pool thr i := by
  cases r <;> simp [TriPtr.root]

/-! ### The invariant -/

section Represents

variable (numX numZ : Nat)

/-- The child links of `m` are the forest whose split nodes are `S`: every node of the forest
is found, at a pointer of its own, and is a branch exactly when it is split; that pointer is its
root, or a pool slot below the pool's cursor; the slots from the cursor on and the roots off
the grid are leaves. -/
structure Shape (m : Mesh) (S : Addr → Bool) : Prop where
  located : ∀ a, InTree numX numZ S a → ∃ p, m.locate a = some p
  leaf : ∀ a p, InTree numX numZ S a → m.locate a = some p → (m.node p).IsLeaf = !S a
  inj : ∀ a b p, InTree numX numZ S a → InTree numX numZ S b → m.locate a = some p →
    m.locate b = some p → a = b
  pool : ∀ a p, InTree numX numZ S a → a.steps ≠ [] → m.locate a = some p →
    ∃ thr i, p = .pool thr i ∧ i < (m.pools thr).nextTriNodeIdx
  fresh : ∀ thr i, (m.pools thr).nextTriNodeIdx ≤ i → (m.node (.pool thr i)).IsLeaf = true
  outer : ∀ px pz r, ¬ (⟨px, pz, r, []⟩ : Addr).InGrid numX numZ →
    (m.node (TriPtr.root r px pz)).IsLeaf = true

/-- **The mesh `m` represents the split set `S`**: its shape is the forest of `S`, `S` is
closed, and every leaf's neighbor links point at the leaves across it. -/
structure Represents (m : Mesh) (S : Addr → Bool) extends Shape numX numZ m S : Prop where
  closed : Closed numX numZ S
  links : ∀ a p s, InTree numX numZ S a → S a = false → m.locate a = some p →
    (m.node p).get s = (across numX numZ S a s).bind m.locate

/-- **Lines 224-257 of `Split` on a leaf**: what the mesh `H` is after the leaf `a` at `tri` takes
the next two slots `lc`, `rc` of pool `thr` as children and links them in. -/
structure ChildrenLinked (m : Mesh) (S : Addr → Bool) (H : Mesh) (a : Addr) (tri lc rc : TriPtr)
    (thr : Nat) : Prop where
  shape : Shape numX numZ H (addSplit S a)
  stab : ∀ x, InTree numX numZ S x → H.locate x = m.locate x
  lc_eq : lc = .pool thr (m.pools thr).nextTriNodeIdx
  rc_eq : rc = .pool thr ((m.pools thr).nextTriNodeIdx + 1)
  pools : H.pools = Function.update m.pools thr (m.pools thr).bump
  failedAllocs : H.failedAllocs = m.failedAllocs
  children : ∀ p, p ≠ tri → (H.node p).LeftChild = (m.node p).LeftChild ∧
    (H.node p).RightChild = (m.node p).RightChild
  children_tri : (H.node tri).LeftChild = some lc ∧ (H.node tri).RightChild = some rc
  get_other : ∀ q, q ≠ lc → q ≠ rc → ∀ s, (H.node q).get s =
    if (m.node tri).LeftNeighbor = some q ∧ (m.node q).get s = some tri then some lc
    else if (m.node tri).RightNeighbor = some q ∧ (m.node q).get s = some tri then some rc
    else (m.node q).get s
  node_lc : H.node lc = ((m.node lc).put .base (m.node tri).LeftNeighbor).put .left (some rc)
  node_rc : H.node rc = ((m.node rc).put .base (m.node tri).RightNeighbor).put .right (some lc)

/-- What `linkChildren` needs of a leg neighbor `q` of `tri`: another node, not one of the
slots the pool hands out next, naming `tri` in one slot at most. -/
def LegReady (m : Mesh) (tri : TriPtr) (thr : Nat) (q : TriPtr) : Prop :=
  q ≠ tri ∧ (∀ i, (m.pools thr).nextTriNodeIdx ≤ i → q ≠ .pool thr i) ∧ (m.node q).NamesOnce tri

theorem Mesh.allocate_linkChildren_illegalLinks {m m₂ : Mesh} {tri lc rc : TriPtr} {thr : Nat}
    (hal : m.allocate thr = (some (lc, rc), m₂))
    (hfr : ∀ i, (m.pools thr).nextTriNodeIdx ≤ i → TriPtr.pool thr i ≠ tri)
    (hL : ∀ l, (m.node tri).LeftNeighbor = some l →
      LegReady m tri thr l ∧ ∃ s, (m.node l).get s = some tri)
    (hR : ∀ r, (m.node tri).RightNeighbor = some r →
      LegReady m tri thr r ∧ ∃ s, (m.node r).get s = some tri)
    (hLR : ∀ l, (m.node tri).LeftNeighbor = some l → (m.node tri).RightNeighbor ≠ some l) :
    ((m₂.setChildren tri (some lc) (some rc)).linkChildren tri lc rc).illegalLinks =
      m.illegalLinks := by
  obtain ⟨-, rfl, rfl, rfl⟩ := Mesh.allocate_some hal
  set c := (m.pools thr).nextTriNodeIdx
  set M := ({ m with pools := Function.update m.pools thr (m.pools thr).bump } : Mesh).setChildren
    tri (some (.pool thr c)) (some (.pool thr (c + 1)))
  have hMnode : ∀ q, q ≠ tri → M.node q = m.node q := fun q hq => by simp [M, hq]
  have hMtri : (M.node tri).LeftNeighbor = (m.node tri).LeftNeighbor ∧
      (M.node tri).RightNeighbor = (m.node tri).RightNeighbor := by simp [M]
  have ready : ∀ q, (LegReady m tri thr q ∧ ∃ s, (m.node q).get s = some tri) →
      (q ≠ .pool thr c ∧ q ≠ .pool thr (c + 1) ∧ q ≠ tri ∧ (M.node q).NamesOnce tri) ∧
        ∃ s, (M.node q).get s = some tri := fun q ⟨⟨h₁, h₂, h₃⟩, s, hs⟩ =>
    ⟨⟨h₂ c le_rfl, h₂ (c + 1) (Nat.le_succ c), h₁, by rwa [hMnode q h₁]⟩, s, by
      rwa [hMnode q h₁]⟩
  exact Mesh.linkChildren_illegalLinks (hfr c le_rfl) (hfr (c + 1) (Nat.le_succ c))
    (fun l hl => (ready l (hL l (hMtri.1 ▸ hl))).1) (fun r hr => (ready r (hR r (hMtri.2 ▸ hr))).1)
    (fun l hl => (ready l (hL l (hMtri.1 ▸ hl))).2) (fun r hr => (ready r (hR r (hMtri.2 ▸ hr))).2)
    (fun l hl => hMtri.2 ▸ hLR l (hMtri.1 ▸ hl))

variable {numX numZ}

theorem ChildrenLinked.get_of_ne {m : Mesh} {S : Addr → Bool} {H : Mesh} {a : Addr}
    {tri lc rc q z : TriPtr} {thr : Nat}
    (hC : ChildrenLinked numX numZ m S H a tri lc rc thr) (hq₁ : q ≠ lc) (hq₂ : q ≠ rc)
    (hz₁ : z ≠ lc) (hz₂ : z ≠ rc) {s : Slot} (h : (H.node q).get s = some z) :
    (m.node q).get s = some z := by
  rw [hC.get_other q hq₁ hq₂] at h
  split_ifs at h
  · exact absurd (Option.some.inj h).symm hz₁
  · exact absurd (Option.some.inj h).symm hz₂
  · exact h

theorem ChildrenLinked.legReady {m : Mesh} {S : Addr → Bool} {H : Mesh} {a : Addr}
    {tri lc rc q l : TriPtr} {thr : Nat} (hC : ChildrenLinked numX numZ m S H a tri lc rc thr)
    (hq₁ : q ≠ lc) (hq₂ : q ≠ rc) (hl : LegReady m q thr l) : LegReady H q thr l := by
  obtain ⟨h₁, h₂, h₃⟩ := hl
  have hl₁ : l ≠ lc := hC.lc_eq ▸ h₂ _ le_rfl
  have hl₂ : l ≠ rc := hC.rc_eq ▸ h₂ _ (Nat.le_succ _)
  refine ⟨h₁, fun i hi => h₂ i ?_, fun s t hs ht =>
    h₃ s t (hC.get_of_ne hl₁ hl₂ hq₁ hq₂ hs) (hC.get_of_ne hl₁ hl₂ hq₁ hq₂ ht)⟩
  rw [hC.pools] at hi
  simp only [Function.update_same, CTriNodePool.bump] at hi
  omega

theorem ChildrenLinked.slots_ne {m H H₂ : Mesh} {S : Addr → Bool} {a n : Addr}
    {tri bn lc rc nl nr : TriPtr} {thr : Nat} (hC : ChildrenLinked numX numZ m S H a tri lc rc thr)
    (hCn : ChildrenLinked numX numZ H (addSplit S a) H₂ n bn nl nr thr) :
    lc ≠ rc ∧ lc ≠ nl ∧ lc ≠ nr ∧ rc ≠ nl ∧ rc ≠ nr ∧ nl ≠ nr := by
  rw [hC.lc_eq, hC.rc_eq, hCn.lc_eq, hCn.rc_eq, hC.pools]
  simp only [Function.update_same, CTriNodePool.bump, ne_eq, TriPtr.pool.injEq, true_and]
  omega

theorem ChildrenLinked.diamond_cross {m H H₂ m' : Mesh} {S : Addr → Bool} {a n : Addr}
    {tri bn lc rc nl nr : TriPtr} {thr : Nat} (hC : ChildrenLinked numX numZ m S H a tri lc rc thr)
    (hCn : ChildrenLinked numX numZ H (addSplit S a) H₂ n bn nl nr thr)
    (hm' : H₂.crossLink nl nr lc rc = m') :
    m'.node lc = (H₂.node lc).put .right (some nr) ∧
      m'.node rc = (H₂.node rc).put .left (some nl) ∧
      m'.node nl = (H₂.node nl).put .right (some rc) ∧
      m'.node nr = (H₂.node nr).put .left (some lc) ∧
      ∀ p, p ≠ lc → p ≠ rc → p ≠ nl → p ≠ nr → m'.node p = H₂.node p := by
  obtain ⟨d₁, d₂, d₃, d₄, d₅, d₆⟩ := hC.slots_ne hCn
  subst hm'
  refine ⟨?_, ?_, ?_, ?_, fun p h₁ h₂ h₃ h₄ => by simp [Mesh.crossLink, h₁, h₂, h₃, h₄]⟩ <;>
    simp [Mesh.crossLink, d₁, d₂, d₃, d₄, d₅, d₆, Ne.symm d₁, Ne.symm d₂, Ne.symm d₃,
      Ne.symm d₄, Ne.symm d₅, Ne.symm d₆]

section Shape

variable {m : Mesh} {S : Addr → Bool} (h : Shape numX numZ m S)
include h

theorem Shape.ptr_cases {x : Addr} {p : TriPtr} (hx : InTree numX numZ S x)
    (hp : m.locate x = some p) :
    (x.steps = [] ∧ p = TriPtr.root x.root x.px x.pz) ∨
      ∃ thr i, p = .pool thr i ∧ i < (m.pools thr).nextTriNodeIdx := by
  by_cases h0 : x.steps = []
  · obtain ⟨px, pz, r, st⟩ := x
    simp only at h0
    subst h0
    exact .inl ⟨rfl, (Option.some.inj hp).symm⟩
  · exact .inr (h.pool x p hx h0 hp)

theorem Shape.ne_fresh {x : Addr} {p : TriPtr} (hx : InTree numX numZ S x)
    (hp : m.locate x = some p) {thr i : Nat} (hi : (m.pools thr).nextTriNodeIdx ≤ i) :
    p ≠ .pool thr i := by
  rcases h.ptr_cases hx hp with ⟨-, rfl⟩ | ⟨t, j, rfl, hj⟩
  · exact TriPtr.root_ne_pool _ _ _ _ _
  · intro e
    obtain ⟨rfl, rfl⟩ := TriPtr.pool.inj e
    omega

theorem Shape.ne_outer {x : Addr} {p : TriPtr} (hx : InTree numX numZ S x)
    (hp : m.locate x = some p) {px pz : Nat} {r : Bool}
    (ho : ¬ (⟨px, pz, r, []⟩ : Addr).InGrid numX numZ) : p ≠ TriPtr.root r px pz := by
  rcases h.ptr_cases hx hp with ⟨-, rfl⟩ | ⟨t, j, rfl, -⟩
  · intro e
    obtain ⟨rfl, rfl, rfl⟩ := TriPtr.root_inj e
    exact ho hx.1
  · exact (TriPtr.root_ne_pool _ _ _ _ _).symm

/-- **Attaching two fresh children to a leaf**: when the only node whose children change is the
leaf `a`'s, which now has the next two slots of a pool, and that pool's cursor moves past
them, the mesh has the shape of the forest with `a` split, and every old node stays where it
was. -/
theorem Shape.attach {m' : Mesh} (hin : ∀ y, S y = true → InTree numX numZ S y) {a : Addr}
    {tri : TriPtr} {thr : Nat} (ha : InTree numX numZ S a) (hla : S a = false)
    (hloc : m.locate a = some tri)
    (hch : ∀ p, p ≠ tri → (m'.node p).LeftChild = (m.node p).LeftChild ∧
      (m'.node p).RightChild = (m.node p).RightChild)
    (hl : (m'.node tri).LeftChild = some (.pool thr (m.pools thr).nextTriNodeIdx))
    (hr : (m'.node tri).RightChild = some (.pool thr ((m.pools thr).nextTriNodeIdx + 1)))
    (hpools : m'.pools = Function.update m.pools thr (m.pools thr).bump) :
    Shape numX numZ m' (addSplit S a) ∧ ∀ x, InTree numX numZ S x → m'.locate x = m.locate x := by
  have hcur : ∀ t, (m'.pools t).nextTriNodeIdx =
      (m.pools t).nextTriNodeIdx + if t = thr then 2 else 0 := by
    intro t
    rw [hpools]
    by_cases ht : t = thr
    · subst ht; simp [CTriNodePool.bump]
    · simp [ht, Function.update_noteq]
  have hleaf : ∀ p, p ≠ tri → (m'.node p).IsLeaf = (m.node p).IsLeaf := fun p hp => by
    simp [TriTreeNode.IsLeaf, hch p hp]
  have hne : ∀ x p, InTree numX numZ S x → m.locate x = some p → x ≠ a → p ≠ tri :=
    fun x p hx hp hxa e => hxa (h.inj x a p hx ha hp (e ▸ hloc))
  -- the old nodes stay where they are
  have hstab : ∀ x, InTree numX numZ S x → m'.locate x = m.locate x := by
    intro x
    induction x using Addr.stepInduction with
    | root => intro; rfl
    | child y b ih =>
      intro hx
      obtain ⟨-, hsy⟩ := (inTree_child y b).mp hx
      have hy := hin y hsy
      obtain ⟨py, hpy⟩ := h.located y hy
      have hpt : py ≠ tri := hne y py hy hpy (by rintro rfl; simp [hla] at hsy)
      simp only [Mesh.locate_child, ih hy, hpy, Option.some_bind, TriTreeNode.childLink]
      cases b <;> simp [hch py hpt]
  -- the new nodes are the two slots
  have hnew : ∀ b, m'.locate (a.child b) =
      some (.pool thr ((m.pools thr).nextTriNodeIdx + b.toNat)) := by
    intro b
    cases b <;> simp [hstab a ha, hloc, TriTreeNode.childLink, hl, hr]
  have hfresh_tri : ∀ i, (m.pools thr).nextTriNodeIdx ≤ i → TriPtr.pool thr i ≠ tri :=
    fun i hi e => h.ne_fresh ha hloc hi e.symm
  have hold_new : ∀ x p (b : Bool), InTree numX numZ S x → m.locate x = some p →
      p ≠ .pool thr ((m.pools thr).nextTriNodeIdx + b.toNat) :=
    fun x p b hx hp => h.ne_fresh hx hp (Nat.le_add_right _ _)
  have hchild_not : ∀ b, ¬ InTree numX numZ S (a.child b) := fun b hc => by
    simp [hla] at hc
  refine ⟨⟨?_, ?_, ?_, ?_, ?_, ?_⟩, hstab⟩
  · -- located
    intro x hx
    rcases inTree_addSplit.mp hx with hx | ⟨-, b, rfl⟩
    · rw [hstab x hx]; exact h.located x hx
    · exact ⟨_, hnew b⟩
  · -- leaf
    intro x p hx hp
    rcases inTree_addSplit.mp hx with hx | ⟨-, b, rfl⟩
    · rw [hstab x hx] at hp
      by_cases hxa : x = a
      · subst hxa
        rw [hloc, Option.some.injEq] at hp
        subst hp
        simp [TriTreeNode.IsLeaf, hl]
      · rw [hleaf p (hne x p hx hp hxa), h.leaf x p hx hp, addSplit_of_ne hxa]
    · rw [hnew b, Option.some.injEq] at hp
      subst hp
      rw [hleaf _ (hfresh_tri _ (Nat.le_add_right _ _)), h.fresh _ _ (Nat.le_add_right _ _)]
      have : S (a.child b) = false := Bool.eq_false_iff.mpr fun hs => hchild_not b (hin _ hs)
      rw [addSplit_of_ne (Addr.child_ne a b), this]; rfl
  · -- inj
    intro x y p hx hy hpx hpy
    rcases inTree_addSplit.mp hx with hx | ⟨-, b, rfl⟩ <;>
      rcases inTree_addSplit.mp hy with hy | ⟨-, b', rfl⟩
    · rw [hstab x hx] at hpx; rw [hstab y hy] at hpy
      exact h.inj x y p hx hy hpx hpy
    · rw [hstab x hx] at hpx; rw [hnew b', Option.some.injEq] at hpy
      exact absurd hpy.symm (hold_new x p b' hx hpx)
    · rw [hstab y hy] at hpy; rw [hnew b, Option.some.injEq] at hpx
      exact absurd hpx.symm (hold_new y p b hy hpy)
    · rw [hnew b] at hpx; rw [hnew b', ← hpx, Option.some.injEq, TriPtr.pool.injEq] at hpy
      cases b <;> cases b' <;> simp at hpy ⊢
  · -- pool
    intro x p hx hs hp
    rcases inTree_addSplit.mp hx with hx | ⟨-, b, rfl⟩
    · rw [hstab x hx] at hp
      obtain ⟨t, i, rfl, hi⟩ := h.pool x p hx hs hp
      exact ⟨t, i, rfl, by rw [hcur]; omega⟩
    · rw [hnew b, Option.some.injEq] at hp
      refine ⟨thr, _, hp.symm, ?_⟩
      rw [hcur, if_pos rfl]
      cases b <;> simp
  · -- fresh
    intro t i hi
    rw [hcur] at hi
    have hi' : (m.pools t).nextTriNodeIdx ≤ i := by split_ifs at hi <;> omega
    have hpt : TriPtr.pool t i ≠ tri := fun e => h.ne_fresh ha hloc hi' e.symm
    rw [hleaf _ hpt, h.fresh t i hi']
  · -- outer
    intro px pz r ho
    rw [hleaf _ (fun e => h.ne_outer ha hloc ho e.symm), h.outer px pz r ho]

theorem Shape.childrenLinked (hin : ∀ y, S y = true → InTree numX numZ S y) {a : Addr}
    {tri lc rc : TriPtr} {thr : Nat} {m₂ : Mesh} (ha : InTree numX numZ S a) (hla : S a = false)
    (hloc : m.locate a = some tri) (hal : m.allocate thr = (some (lc, rc), m₂))
    (hL : ∀ l, (m.node tri).LeftNeighbor = some l → LegReady m tri thr l)
    (hR : ∀ r, (m.node tri).RightNeighbor = some r → LegReady m tri thr r) :
    ChildrenLinked numX numZ m S ((m₂.setChildren tri (some lc) (some rc)).linkChildren tri lc rc)
      a tri lc rc thr := by
  obtain ⟨-, rfl, rfl, rfl⟩ := Mesh.allocate_some hal
  set c := (m.pools thr).nextTriNodeIdx
  set M := ({ m with pools := Function.update m.pools thr (m.pools thr).bump } : Mesh).setChildren
    tri (some (.pool thr c)) (some (.pool thr (c + 1)))
  have hfr : ∀ i, c ≤ i → TriPtr.pool thr i ≠ tri := fun i hi e => h.ne_fresh ha hloc hi e.symm
  have hMget : ∀ q s, (M.node q).get s = (m.node q).get s := by
    intro q s; by_cases hq : q = tri
    · subst hq; cases s <;> simp [M, TriTreeNode.get]
    · simp [M, hq]
  have hMnode : ∀ q, q ≠ tri → M.node q = m.node q := fun q hq => by simp [M, hq]
  have hMtri : (M.node tri).LeftNeighbor = (m.node tri).LeftNeighbor ∧
      (M.node tri).RightNeighbor = (m.node tri).RightNeighbor := by simp [M]
  have hlc : TriPtr.pool thr c ≠ tri := hfr c le_rfl
  have hrc : TriPtr.pool thr (c + 1) ≠ tri := hfr (c + 1) (Nat.le_succ c)
  have hlr : TriPtr.pool thr c ≠ .pool thr (c + 1) := by simp
  have ready : ∀ q, LegReady m tri thr q → q ≠ .pool thr c ∧ q ≠ .pool thr (c + 1) ∧ q ≠ tri ∧
      (M.node q).NamesOnce tri := fun q ⟨h₁, h₂, h₃⟩ =>
    ⟨h₂ c le_rfl, h₂ (c + 1) (Nat.le_succ c), h₁, by rwa [hMnode q h₁]⟩
  have hL' : ∀ l, (M.node tri).LeftNeighbor = some l → _ := fun l hl =>
    ready l (hL l (hMtri.1 ▸ hl))
  have hR' : ∀ r, (M.node tri).RightNeighbor = some r → _ := fun r hr =>
    ready r (hR r (hMtri.2 ▸ hr))
  have hch : ∀ p, p ≠ tri →
      ((M.linkChildren tri (.pool thr c) (.pool thr (c + 1))).node p).LeftChild =
        (m.node p).LeftChild ∧
      ((M.linkChildren tri (.pool thr c) (.pool thr (c + 1))).node p).RightChild =
        (m.node p).RightChild := fun p hp => by
    simp only [Mesh.linkChildren_LeftChild, Mesh.linkChildren_RightChild, hMnode p hp, and_self]
  have htri : ((M.linkChildren tri (.pool thr c) (.pool thr (c + 1))).node tri).LeftChild =
      some (.pool thr c) ∧ ((M.linkChildren tri (.pool thr c) (.pool thr (c + 1))).node
        tri).RightChild = some (.pool thr (c + 1)) := by
    simp [M]
  have hpools : (M.linkChildren tri (.pool thr c) (.pool thr (c + 1))).pools =
      Function.update m.pools thr (m.pools thr).bump := by simp [M]
  obtain ⟨hshape, hstab⟩ := h.attach hin ha hla hloc hch htri.1 htri.2 hpools
  obtain ⟨hnlc, hnrc⟩ := Mesh.linkChildren_node_children hlc hrc hL' hR' hlr
  refine ⟨hshape, hstab, rfl, rfl, hpools, by simp [M], hch, htri, ?_, ?_, ?_⟩
  · intro q hq₁ hq₂ s
    rw [Mesh.linkChildren_get_other hlc hrc hL' hR' hq₁ hq₂, hMtri.1, hMtri.2]
    simp only [hMget]
  · rw [hnlc, hMtri.1, hMnode _ hlc]
  · rw [hnrc, hMtri.2, hMnode _ hrc]

theorem Shape.congr {m' : Mesh} (hch : ∀ p, (m'.node p).LeftChild = (m.node p).LeftChild ∧
    (m'.node p).RightChild = (m.node p).RightChild) (hpools : m'.pools = m.pools) :
    Shape numX numZ m' S := by
  have hloc := Mesh.locate_eq_of_children hch
  have hleaf : ∀ p, (m'.node p).IsLeaf = (m.node p).IsLeaf := fun p => by
    simp [TriTreeNode.IsLeaf, hch p]
  refine ⟨fun a ha => ?_, fun a p ha hp => ?_, fun a b p ha hb hpa hpb => ?_,
    fun a p ha hs hp => ?_, fun thr i hi => ?_, fun px pz r ho => ?_⟩
  · rw [hloc]; exact h.located a ha
  · rw [hloc] at hp; rw [hleaf]; exact h.leaf a p ha hp
  · rw [hloc] at hpa hpb; exact h.inj a b p ha hb hpa hpb
  · rw [hloc] at hp; rw [hpools]; exact h.pool a p ha hs hp
  · rw [hpools] at hi; rw [hleaf]; exact h.fresh thr i hi
  · rw [hleaf]; exact h.outer px pz r ho

end Shape

section Links

variable {m : Mesh} {S : Addr → Bool} (hR : Represents numX numZ m S)
include hR

theorem Represents.get_eq_some {x y : Addr} {p q : TriPtr} {s : Slot}
    (hx : InTree numX numZ S x) (hlx : S x = false) (hp : m.locate x = some p)
    (hy : InTree numX numZ S y) (hq : m.locate y = some q) (h : (m.node p).get s = some q) :
    across numX numZ S x s = some y := by
  rw [hR.links x p s hx hlx hp] at h
  obtain ⟨z, hz, hzq⟩ := Option.bind_eq_some.mp h
  rw [hz, hR.inj z y q (across_leaf hR.closed hx hlx hz).1 hy hzq hq]

theorem Represents.namesOnce {x y : Addr} {p q : TriPtr} (hx : InTree numX numZ S x)
    (hlx : S x = false) (hp : m.locate x = some p) (hy : InTree numX numZ S y)
    (hq : m.locate y = some q) : (m.node p).NamesOnce q := fun _ _ hs ht =>
  across_slot_inj hx.1 (hR.get_eq_some hx hlx hp hy hq hs) (hR.get_eq_some hx hlx hp hy hq ht)

theorem Represents.legReady {a : Addr} {tri l : TriPtr} {s : Slot} (ha : InTree numX numZ S a)
    (hla : S a = false) (hloc : m.locate a = some tri) (hl : (m.node tri).get s = some l)
    (thr : Nat) : LegReady m tri thr l := by
  rw [hR.links a tri s ha hla hloc] at hl
  obtain ⟨x, hx, hxl⟩ := Option.bind_eq_some.mp hl
  obtain ⟨hxt, hlx⟩ := across_leaf hR.closed ha hla hx
  refine ⟨fun e => @across_ne_self numX numZ S a s ha.1 ?_,
    fun i hi => hR.toShape.ne_fresh hxt hxl hi,
    hR.namesOnce hxt hlx hxl ha hloc⟩
  rw [hx, hR.inj x a l hxt ha hxl (e ▸ hloc)]

theorem Represents.names_back {a : Addr} {tri l : TriPtr} {t : Slot} (ha : InTree numX numZ S a)
    (hla : S a = false) (hloc : m.locate a = some tri) (hl : (m.node tri).get t = some l) :
    ∃ s, (m.node l).get s = some tri := by
  rw [hR.links a tri t ha hla hloc] at hl
  obtain ⟨x, hx, hxl⟩ := Option.bind_eq_some.mp hl
  obtain ⟨hxt, hlx⟩ := across_leaf hR.closed ha hla hx
  obtain ⟨s, hs⟩ := across_reciprocal ha hla hx
  exact ⟨s, by rw [hR.links x l s hxt hlx hxl, hs, Option.some_bind, hloc]⟩

theorem Represents.legs_ne {a : Addr} {tri l : TriPtr} (ha : InTree numX numZ S a)
    (hla : S a = false) (hloc : m.locate a = some tri) (hl : (m.node tri).get .left = some l) :
    (m.node tri).get .right ≠ some l := fun hr => by
  rw [hR.links a tri _ ha hla hloc] at hl hr
  obtain ⟨x, hx, hxl⟩ := Option.bind_eq_some.mp hl
  obtain ⟨y, hy, hyl⟩ := Option.bind_eq_some.mp hr
  obtain rfl := hR.inj x y l (across_leaf hR.closed ha hla hx).1 (across_leaf hR.closed ha hla hy).1
    hxl hyl
  exact absurd (across_slot_inj ha.1 hx hy) (by decide)

theorem Represents.firstHalf_illegalLinks {a : Addr} {tri lc rc : TriPtr} {thr : Nat} {m₂ : Mesh}
    (ha : InTree numX numZ S a) (hla : S a = false) (hloc : m.locate a = some tri)
    (hal : m.allocate thr = (some (lc, rc), m₂)) :
    ((m₂.setChildren tri (some lc) (some rc)).linkChildren tri lc rc).illegalLinks =
      m.illegalLinks :=
  Mesh.allocate_linkChildren_illegalLinks hal (fun _ hi e => hR.toShape.ne_fresh ha hloc hi e.symm)
    (fun l hl => have h : (m.node tri).get .left = some l := hl
      ⟨hR.legReady ha hla hloc h thr, hR.names_back ha hla hloc h⟩)
    (fun r hr => have h : (m.node tri).get .right = some r := hr
      ⟨hR.legReady ha hla hloc h thr, hR.names_back ha hla hloc h⟩)
    (fun _ hl => hR.legs_ne ha hla hloc hl)

theorem Represents.firstHalf {a : Addr} {tri lc rc : TriPtr} {thr : Nat} {m₂ : Mesh}
    (ha : InTree numX numZ S a) (hla : S a = false) (hloc : m.locate a = some tri)
    (hal : m.allocate thr = (some (lc, rc), m₂)) :
    ChildrenLinked numX numZ m S ((m₂.setChildren tri (some lc) (some rc)).linkChildren tri lc rc)
      a tri lc rc thr :=
  hR.toShape.childrenLinked hR.closed.inTree ha hla hloc hal
    (fun l hl => hR.legReady ha hla hloc (show (m.node tri).get .left = some l from hl) thr)
    (fun r hr => hR.legReady ha hla hloc (show (m.node tri).get .right = some r from hr) thr)

/-- **The forced split of `Split` on a conforming mesh** (lines 217-219): there is none when the
leaf's base neighbor is in the forest or there is no base neighbor; otherwise it is the split of
the coarser base neighbor, the parent of the node across the hypotenuse, one level up. -/
theorem Represents.forcedStep_cases {a : Addr} {tri : TriPtr} (ha : InTree numX numZ S a)
    (hla : S a = false) (hloc : m.locate a = some tri) (thr fuel : Nat) :
    ((∀ n, nbr numX numZ a .base = some n → InTree numX numZ S n) ∧
      ∀ m₁, ForcedStep thr fuel m tri m₁ ↔ m₁ = m) ∨
    ∃ u b, nbr numX numZ a .base = some u ∧ ¬ InTree numX numZ S u ∧
      u.parent.steps.length < a.steps.length ∧ InTree numX numZ S u.parent ∧
      m.locate u.parent = some b ∧
      ∀ m₁, ForcedStep thr fuel m tri m₁ ↔ ∃ r, Split thr fuel m b = some (m₁, r) := by
  have hbase := hR.links a tri .base ha hla hloc
  cases hq : across numX numZ S a .base with
  | none =>
    rw [hq, Option.none_bind] at hbase
    refine .inl ⟨fun n hn => ?_, fun m₁ => by
      simp only [ForcedStep, show (m.node tri).BaseNeighbor = none from hbase]⟩
    by_cases h : InTree numX numZ S n
    · exact absurd (across_base_eq_some.mpr ⟨n, hn, .inl ⟨h, rfl⟩⟩) (by rw [hq]; simp)
    · exact absurd (across_base_eq_some.mpr ⟨n, hn, .inr ⟨h, rfl⟩⟩) (by rw [hq]; simp)
  | some q =>
    obtain ⟨hqt, hlq⟩ := across_leaf hR.closed ha hla hq
    obtain ⟨b, hb⟩ := hR.located q hqt
    rw [hq, Option.some_bind, hb] at hbase
    have hbase' : (m.node tri).BaseNeighbor = some b := hbase
    obtain ⟨u, hu, ⟨hin, rfl⟩ | ⟨hni, rfl⟩⟩ := across_base_eq_some.mp hq
    · -- a proper diamond: the partner names the leaf back
      have hback := hR.links q b .base hqt hlq hb
      rw [show across numX numZ S q .base = some a from across_base_eq_some.mpr
        ⟨a, by simpa using nbr_back a ha.1 hu, .inl ⟨ha, rfl⟩⟩, Option.some_bind, hloc] at hback
      refine .inl ⟨fun n hn => by rw [hu, Option.some.injEq] at hn; subst hn; exact hin,
        fun m₁ => ?_⟩
      simp only [ForcedStep, hbase', show (m.node b).BaseNeighbor = some tri from hback, ne_eq,
        not_true_eq_false, if_false]
    · -- the base neighbor is coarser, so it does not name the leaf back
      obtain ⟨hne, -⟩ := not_inTree (nbr_inGrid a ha.1 hu) hni
      have hlen : u.parent.steps.length + 1 = a.steps.length := by
        have := nbr_steps_length a hu
        simp only [Addr.parent, List.length_tail]
        have := List.length_pos.mpr hne; omega
      have hnot : (m.node b).BaseNeighbor ≠ some tri := fun h' => by
        have := across_base_length (hR.get_eq_some hqt hlq hb ha hloc h'); omega
      refine .inr ⟨u, b, hu, hni, by omega, hqt, hb, fun m₁ => ?_⟩
      simp only [ForcedStep, hbase', ne_eq, hnot, not_false_eq_true, if_true]

theorem Represents.get_half {a x : Addr} {tri p lc rc : TriPtr} (ha : InTree numX numZ S a)
    (hla : S a = false) (hloc : m.locate a = some tri) (hx : InTree numX numZ S x)
    (hlx : S x = false) (hp : m.locate x = some p) (hbase : across numX numZ S a .base ≠ some x)
    (loc' : Addr → Option TriPtr) (hold : ∀ y, InTree numX numZ S y → loc' y = m.locate y)
    (hlc : loc' (a.child false) = some lc) (hrc : loc' (a.child true) = some rc) (s : Slot) :
    (if (m.node tri).LeftNeighbor = some p ∧ (m.node p).get s = some tri then some lc
      else if (m.node tri).RightNeighbor = some p ∧ (m.node p).get s = some tri then some rc
      else (m.node p).get s) = (across numX numZ (addSplit S a) x s).bind loc' := by
  have hv := hR.links x p s hx hlx hp
  by_cases hxs : across numX numZ S x s = some a
  · -- `x` faces `a` across the leg `t` of `a`
    obtain ⟨t, ht⟩ := across_reciprocal hx hlx hxs
    have htb : t ≠ .base := by rintro rfl; exact hbase ht
    have htp : (m.node tri).get t = some p := by rw [hR.links a tri t ha hla hloc, ht]; exact hp
    have hvt : (m.node p).get s = some tri := by rw [hv, hxs]; exact hloc
    rw [across_of_split_facing ha.1 hla (by simp) htb ht hxs]
    cases t with
    | base => exact absurd rfl htb
    | left =>
      simp only [TriTreeNode.get] at htp
      simp [htp, hvt, hlc, Slot.childOf]
    | right =>
      have hL : (m.node tri).LeftNeighbor ≠ some p := fun e => by
        have := hR.namesOnce ha hla hloc hx hp .left .right e htp
        exact absurd this (by decide)
      simp only [TriTreeNode.get] at htp
      simp [hL, htp, hvt, hrc, Slot.childOf]
  · -- every other slot is kept
    have hne : (m.node p).get s ≠ some tri := fun h => hxs (hR.get_eq_some hx hlx hp ha hloc h)
    rw [if_neg fun h => hne h.2, if_neg fun h => hne h.2, hv,
      across_eq_of_not_split (fun _ => le_addSplit a) fun z hz hz' => by
        rcases addSplit_eq_true.mp hz' with hz' | rfl
        · simp [hz] at hz'
        · exact hxs]
    cases hA : across numX numZ S x s with
    | none => rfl
    | some y => exact (hold y (across_leaf hR.closed hx hlx hA).1).symm

theorem Represents.get_child {y : Addr} {ty : TriPtr} (hy : InTree numX numZ S y)
    (hly : S y = false) (hyl : m.locate y = some ty) {S' : Addr → Bool} (b : Bool)
    (hagree : ∀ u, nbr numX numZ y (Slot.leg b) = some u → S' u = S u)
    (hsib : S' (y.child !b) = false)
    (hout : ∀ n, nbr numX numZ y .base = some n → S' (n.child !b) = false)
    (loc' : Addr → Option TriPtr) (hold : ∀ z, InTree numX numZ S z → loc' z = m.locate z)
    (node : TriTreeNode) (hbase : node.get .base = (m.node ty).get (Slot.leg b))
    (hsibv : node.get (Slot.leg b) = loc' (y.child !b))
    (houtv : node.get (Slot.leg !b) = ((nbr numX numZ y .base).map (·.child !b)).bind loc')
    (s : Slot) : node.get s = (across numX numZ S' (y.child b) s).bind loc' := by
  have hs : s = .base ∨ s = Slot.leg b ∨ s = Slot.leg !b := by
    cases s <;> cases b <;> simp [Slot.leg]
  rcases hs with rfl | rfl | rfl
  · rw [hbase, across_child_base y b hy.1 hagree, hR.links y ty _ hy hly hyl]
    cases hA : across numX numZ S y (Slot.leg b) with
    | none => rfl
    | some z => exact (hold z (across_leaf hR.closed hy hly hA).1).symm
  · rw [hsibv, across_child_sibling y b hsib]; rfl
  · rw [houtv, across_child_outer y b hout]

/-- **A leaf on the map edge splits alone** (lines 268-274): its children's outer legs are
cleared, and the mesh represents the split set with the leaf added. -/
theorem Represents.edge {a : Addr} {tri lc rc : TriPtr} {thr : Nat} {m₂ : Mesh}
    (ha : InTree numX numZ S a) (hla : S a = false) (hloc : m.locate a = some tri)
    (hn : nbr numX numZ a .base = none) (hal : m.allocate thr = (some (lc, rc), m₂)) :
    Represents numX numZ ((((m₂.setChildren tri (some lc) (some rc)).linkChildren tri lc
      rc).setSlot lc .right none).setSlot rc .left none) (splitDiamond numX numZ S a) ∧
    ∀ x, InTree numX numZ S x → ((((m₂.setChildren tri (some lc) (some rc)).linkChildren tri lc
      rc).setSlot lc .right none).setSlot rc .left none).locate x = m.locate x := by
  have hC := hR.firstHalf ha hla hloc hal
  generalize (m₂.setChildren tri (some lc) (some rc)).linkChildren tri lc rc = H at hC ⊢
  generalize hm' : (H.setSlot lc .right none).setSlot rc .left none = m'
  have hch : ∀ p, (m'.node p).LeftChild = (H.node p).LeftChild ∧
      (m'.node p).RightChild = (H.node p).RightChild := fun p => by
    subst hm'; simp only [Mesh.setSlot_node]; split_ifs <;> simp_all
  have hlocs := Mesh.locate_eq_of_children hch
  have hstab : ∀ x, InTree numX numZ S x → m'.locate x = m.locate x :=
    fun x hx => (hlocs x).trans (hC.stab x hx)
  have hnew : ∀ b, m'.locate (a.child b) = some (if b then rc else lc) := fun b => by
    cases b <;> simp [hlocs, hC.stab a ha, hloc, TriTreeNode.childLink, hC.children_tri]
  have hlr : lc ≠ rc := by rw [hC.lc_eq, hC.rc_eq]; simp
  rw [splitDiamond_of_none hn]
  refine ⟨{ hC.shape.congr hch (by subst hm'; rfl) with closed := ?_, links := ?_ }, hstab⟩
  · rw [← splitDiamond_of_none hn]
    exact hR.closed.splitDiamond ha fun n h => by simp [hn] at h
  intro x p s hx hlx hp
  rcases inTree_addSplit.mp hx with hx | ⟨-, b, rfl⟩
  · -- an old leaf
    have hxa : x ≠ a := by rintro rfl; simp [addSplit] at hlx
    rw [addSplit_of_ne hxa] at hlx
    rw [hstab x hx] at hp
    have hp₁ : p ≠ lc := hC.lc_eq ▸ hR.toShape.ne_fresh hx hp le_rfl
    have hp₂ : p ≠ rc := hC.rc_eq ▸ hR.toShape.ne_fresh hx hp (Nat.le_succ _)
    have hget : (m'.node p).get s = (H.node p).get s := by subst hm'; simp [hp₁, hp₂]
    rw [hget, hC.get_other p hp₁ hp₂ s]
    exact hR.get_half ha hla hloc hx hlx hp
      (by rw [Ne, across_base_eq_some]; rintro ⟨u, hu, -⟩; simp [hn] at hu) m'.locate hstab
      (hnew false) (hnew true) s
  · -- a new child
    have hsib : addSplit S a (a.child !b) = false := by
      rw [addSplit_of_ne (Addr.child_ne a _), hR.closed.child_false hla]
    have hagree : ∀ u, nbr numX numZ a (Slot.leg b) = some u → addSplit S a u = S u :=
      fun u hu => addSplit_of_ne fun e => nbr_ne_self a _ (e ▸ hu)
    rw [hnew b, Option.some.injEq] at hp
    subst hp
    refine hR.get_child ha hla hloc b hagree hsib (fun n h => by simp [hn] at h) m'.locate hstab
      _ ?_ ?_ ?_ s <;> cases b <;> subst hm' <;>
      simp [hlr, Ne.symm hlr, hC.node_lc, hC.node_rc, hnew, hn, Slot.leg, TriTreeNode.get,
        TriTreeNode.put]

/-! ### A diamond -/

theorem Represents.partner_leaf {a n : Addr} (ha : InTree numX numZ S a) (hla : S a = false)
    (hn : nbr numX numZ a .base = some n) :
    nbr numX numZ n .base = some a ∧ S n = false := by
  have hna : nbr numX numZ n .base = some a := by simpa using nbr_back a ha.1 hn
  refine ⟨hna, Bool.eq_false_iff.mpr fun h => ?_⟩
  have := hR.closed.partner n a h hna
  simp [hla] at this

theorem ChildrenLinked.diamond_fresh {H H₂ : Mesh} {a n : Addr} {tri bn lc rc nl nr : TriPtr}
    {thr : Nat} (hC : ChildrenLinked numX numZ m S H a tri lc rc thr)
    (hCn : ChildrenLinked numX numZ H (addSplit S a) H₂ n bn nl nr thr) {x : Addr} {p : TriPtr}
    (hx : InTree numX numZ S x) (hp : m.locate x = some p) : p ≠ lc ∧ p ≠ rc ∧ p ≠ nl ∧ p ≠ nr := by
  have hfr := fun i (hi : (m.pools thr).nextTriNodeIdx ≤ i) => hR.toShape.ne_fresh hx hp hi
  rw [hC.lc_eq, hC.rc_eq, hCn.lc_eq, hCn.rc_eq, hC.pools]
  simp only [Function.update_same, CTriNodePool.bump]
  exact ⟨hfr _ le_rfl, hfr _ (by omega), hfr _ (by omega), hfr _ (by omega)⟩

section Diamond

variable {a n : Addr} {tri bn : TriPtr} (ha : InTree numX numZ S a) (hla : S a = false)
  (hloc : m.locate a = some tri) (hn : nbr numX numZ a .base = some n)
  (hnt : InTree numX numZ S n) (hbn : m.locate n = some bn)
include ha hla hloc hn hnt hbn

theorem Represents.across_partner :
    across numX numZ S a .base = some n ∧ across numX numZ S n .base = some a ∧ bn ≠ tri :=
  ⟨across_base_eq_some.mpr ⟨n, hn, .inl ⟨hnt, rfl⟩⟩,
    across_base_eq_some.mpr ⟨a, (hR.partner_leaf ha hla hn).1, .inl ⟨ha, rfl⟩⟩,
    fun e => nbr_ne_self a .base (by rw [hn, hR.inj n a bn hnt ha hbn (e ▸ hloc)])⟩

variable {lc rc : TriPtr} {thr : Nat} {H : Mesh}
  (hC : ChildrenLinked numX numZ m S H a tri lc rc thr)
include hC

theorem ChildrenLinked.partner_get (s : Slot) : (H.node bn).get s = (m.node bn).get s := by
  have hleg : ∀ t, t ≠ .base → (m.node tri).get t ≠ some bn := fun t ht h =>
    ht (across_slot_inj ha.1 (hR.get_eq_some ha hla hloc hnt hbn h)
      (hR.across_partner ha hla hloc hn hnt hbn).1)
  rw [hC.get_other bn (hC.lc_eq ▸ hR.toShape.ne_fresh hnt hbn le_rfl)
    (hC.rc_eq ▸ hR.toShape.ne_fresh hnt hbn (Nat.le_succ _)),
    if_neg fun h => hleg .left (by decide) h.1, if_neg fun h => hleg .right (by decide) h.1]

theorem ChildrenLinked.partner_ready :
    (H.node bn).IsLeaf = true ∧ (H.node bn).BaseNeighbor = some tri ∧
      (H.node tri).BaseNeighbor = some bn := by
  obtain ⟨han, hna', hbt⟩ := hR.across_partner ha hla hloc hn hnt hbn
  have hln := (hR.partner_leaf ha hla hn).2
  have hnotself : ∀ t, (m.node tri).get t ≠ some tri := fun t h =>
    (hR.legReady ha hla hloc h thr).1 rfl
  refine ⟨?_, ?_, ?_⟩
  · rw [TriTreeNode.IsLeaf, (hC.children bn hbt).1, (hC.children bn hbt).2]
    exact (hR.leaf n bn hnt hbn).trans (by rw [hln]; rfl)
  · rw [show (H.node bn).BaseNeighbor = (H.node bn).get .base from rfl,
      hC.partner_get hR ha hla hloc hn hnt hbn, hR.links n bn .base hnt hln hbn, hna',
      Option.some_bind, hloc]
  · rw [show (H.node tri).BaseNeighbor = (H.node tri).get .base from rfl,
      hC.get_other tri (hC.lc_eq ▸ hR.toShape.ne_fresh ha hloc le_rfl)
        (hC.rc_eq ▸ hR.toShape.ne_fresh ha hloc (Nat.le_succ _)),
      if_neg fun h => hnotself .left h.1, if_neg fun h => hnotself .right h.1,
      hR.links a tri .base ha hla hloc, han, Option.some_bind, hbn]

theorem ChildrenLinked.partner_linked {nl nr : TriPtr} {m₅ : Mesh}
    (hal₂ : H.allocate thr = (some (nl, nr), m₅)) :
    ChildrenLinked numX numZ H (addSplit S a)
      ((m₅.setChildren bn (some nl) (some nr)).linkChildren bn nl nr) n bn nl nr thr := by
  have hln := (hR.partner_leaf ha hla hn).2
  have hne : n ≠ a := fun e => nbr_ne_self a _ (e ▸ hn)
  have hbnget := hC.partner_get hR ha hla hloc hn hnt hbn
  have hbn₁ : bn ≠ lc := hC.lc_eq ▸ hR.toShape.ne_fresh hnt hbn le_rfl
  have hbn₂ : bn ≠ rc := hC.rc_eq ▸ hR.toShape.ne_fresh hnt hbn (Nat.le_succ _)
  have hin' : ∀ y, addSplit S a y = true → InTree numX numZ (addSplit S a) y := fun y hy => by
    rcases addSplit_eq_true.mp hy with hy | rfl
    · exact (hR.closed.inTree y hy).mono fun _ => le_addSplit a
    · exact ha.mono fun _ => le_addSplit y
  exact hC.shape.childrenLinked hin' (hnt.mono fun _ => le_addSplit a)
    (by rw [addSplit_of_ne hne, hln]) (by rw [hC.stab n hnt, hbn]) hal₂
    (fun l hl => hC.legReady hbn₁ hbn₂ (hR.legReady hnt hln hbn
      (show (m.node bn).get .left = some l by rw [← hbnget]; exact hl) thr))
    (fun r hr => hC.legReady hbn₁ hbn₂ (hR.legReady hnt hln hbn
      (show (m.node bn).get .right = some r by rw [← hbnget]; exact hr) thr))

/-- **The partner's split ends with the cross link** (lines 261-266): after its own half the
partner still names the leaf as base neighbor, and the leaf is split. -/
theorem ChildrenLinked.partnerStep_iff {nl nr : TriPtr} {H₂ : Mesh}
    (hCn : ChildrenLinked numX numZ H (addSplit S a) H₂ n bn nl nr thr) {fuel : Nat}
    {m' : Mesh} : PartnerStep thr fuel H₂ bn nl nr m' ↔ m' = H₂.crossLink nl nr lc rc := by
  have hbnH : H.locate n = some bn := by rw [hC.stab n hnt, hbn]
  have hfrH := fun i (hi : (H.pools thr).nextTriNodeIdx ≤ i) =>
    hC.shape.ne_fresh (hnt.mono fun _ => le_addSplit a) hbnH hi
  have hbnget := hC.partner_get hR ha hla hloc hn hnt hbn
  have hbnself : ∀ t, (m.node bn).get t ≠ some bn := fun t h =>
    (hR.legReady hnt (hR.partner_leaf ha hla hn).2 hbn h thr).1 rfl
  have h₂base : (H₂.node bn).BaseNeighbor = some tri := by
    rw [show (H₂.node bn).BaseNeighbor = (H₂.node bn).get .base from rfl,
      hCn.get_other bn (hCn.lc_eq ▸ hfrH _ le_rfl) (hCn.rc_eq ▸ hfrH _ (Nat.le_succ _)),
      if_neg fun h => hbnself .left (by rw [← hbnget]; exact h.1),
      if_neg fun h => hbnself .right (by rw [← hbnget]; exact h.1)]
    exact (hC.partner_ready hR ha hla hloc hn hnt hbn).2.1
  have hbt := (hR.across_partner ha hla hloc hn hnt hbn).2.2.symm
  unfold PartnerStep
  rw [h₂base]
  simp only [(hCn.children tri hbt).1, (hCn.children tri hbt).2, hC.children_tri]

variable {nl nr : TriPtr} {H₂ m' : Mesh}
  (hCn : ChildrenLinked numX numZ H (addSplit S a) H₂ n bn nl nr thr)
  (hm' : H₂.crossLink nl nr lc rc = m')
include hCn hm'

omit hR hla hn in
theorem ChildrenLinked.diamond_locate :
    (∀ x, InTree numX numZ S x → m'.locate x = m.locate x) ∧
      (∀ b, m'.locate (a.child b) = some (if b then rc else lc)) ∧
      (∀ b, m'.locate (n.child b) = some (if b then nr else nl)) := by
  have hlocs : ∀ x, m'.locate x = H₂.locate x := Mesh.locate_eq_of_children fun p => by
    subst hm'; simp
  have hS₁ : ∀ x, InTree numX numZ S x → InTree numX numZ (addSplit S a) x :=
    fun x hx => hx.mono fun _ => le_addSplit a
  refine ⟨fun x hx => by rw [hlocs, hCn.stab x (hS₁ x hx), hC.stab x hx], fun b => ?_,
    fun b => ?_⟩
  · rw [hlocs, hCn.stab _ (inTree_addSplit.mpr (.inr ⟨ha.1, b, rfl⟩))]
    cases b <;> simp [hC.stab a ha, hloc, TriTreeNode.childLink, hC.children_tri]
  · cases b <;> simp [hlocs, hCn.stab n (hS₁ n hnt), hC.stab n hnt, hbn, TriTreeNode.childLink,
      hCn.children_tri]

theorem ChildrenLinked.diamond_first_children {q : TriPtr} (hq : q = lc ∨ q = rc) :
    H₂.node q = H.node q := by
  obtain ⟨-, d₂, d₃, d₄, d₅, -⟩ := hC.slots_ne hCn
  have hq' : ∀ l, l ≠ lc ∧ l ≠ rc → l ≠ q := fun l hl e =>
    hq.elim (fun h => hl.1 (e.trans h)) fun h => hl.2 (e.trans h)
  -- the partner's legs name old nodes
  have hleg : ∀ t l, (H.node bn).get t = some l → l ≠ lc ∧ l ≠ rc := fun t l h => by
    rw [hC.partner_get hR ha hla hloc hn hnt hbn] at h
    obtain ⟨-, h₂, -⟩ := hR.legReady hnt (hR.partner_leaf ha hla hn).2 hbn h thr
    exact ⟨hC.lc_eq ▸ h₂ _ le_rfl, hC.rc_eq ▸ h₂ _ (Nat.le_succ _)⟩
  obtain ⟨hb₁, hb₂, -⟩ := hC.diamond_fresh hR hCn hnt hbn
  have hqb : q ≠ bn := fun e => hq' bn ⟨hb₁, hb₂⟩ e.symm
  have h₃ : q ≠ nl := by rcases hq with rfl | rfl <;> assumption
  have h₄ : q ≠ nr := by rcases hq with rfl | rfl <;> assumption
  refine TriTreeNode.ext_get (hCn.children q hqb).1 (hCn.children q hqb).2 fun s => ?_
  rw [hCn.get_other q h₃ h₄, if_neg fun h => hq' q (hleg .left q h.1) rfl,
    if_neg fun h => hq' q (hleg .right q h.1) rfl]

theorem ChildrenLinked.diamond_links_old {x : Addr} {p : TriPtr} (hx : InTree numX numZ S x)
    (hxa : x ≠ a) (hxn : x ≠ n) (hlx : S x = false) (hp : m.locate x = some p) (s : Slot) :
    (m'.node p).get s =
      (across numX numZ (addSplit (addSplit S a) n) x s).bind m'.locate := by
  obtain ⟨hstab, hnewa, hnewn⟩ := hC.diamond_locate ha hloc hnt hbn hCn hm'
  obtain ⟨hq₁, hq₂, hq₃, hq₄⟩ := hC.diamond_fresh hR hCn hx hp
  obtain ⟨hb₁, hb₂, -⟩ := hC.diamond_fresh hR hCn hnt hbn
  obtain ⟨han, hna', hbt⟩ := hR.across_partner ha hla hloc hn hnt hbn
  have hln := (hR.partner_leaf ha hla hn).2
  have hbnget := hC.partner_get hR ha hla hloc hn hnt hbn
  -- what the first half left in `p`
  have hHp := (hC.get_other p hq₁ hq₂ s).trans (hR.get_half ha hla hloc hx hlx hp
    (fun h => hxn (Option.some.inj (han.symm.trans h)).symm) m'.locate hstab (hnewa false)
    (hnewa true) s)
  rw [(hC.diamond_cross hCn hm').2.2.2.2 p hq₁ hq₂ hq₃ hq₄,
    hCn.get_other p hq₃ hq₄, show (H.node bn).LeftNeighbor = (m.node bn).get .left
    from hbnget .left, show (H.node bn).RightNeighbor = (m.node bn).get .right
    from hbnget .right]
  by_cases hxs : across numX numZ S x s = some n
  · -- `x` faces the partner across the partner's leg `t`
    obtain ⟨t, ht⟩ := across_reciprocal hx hlx hxs
    have htb : t ≠ .base := by rintro rfl; rw [hna'] at ht; exact hxa (Option.some.inj ht).symm
    have htp : (m.node bn).get t = some p := by
      rw [hR.links n bn t hnt hln hbn, ht]; exact hp
    have hHv : (H.node p).get s = some bn := by
      rw [hC.get_other p hq₁ hq₂, hR.links x p s hx hlx hp, hxs, Option.some_bind, hbn]
      simp [hbt]
    rw [across_of_split_facing hnt.1 hln (by simp) htb ht hxs, hHv]
    cases t with
    | base => exact absurd rfl htb
    | left => simp [htp, hnewn, Slot.childOf]
    | right =>
      have hL : (m.node bn).get .left ≠ some p := fun e =>
        absurd (hR.namesOnce hnt hln hbn hx hp .left .right e htp) (by decide)
      simp [hL, htp, hnewn, Slot.childOf]
  · -- every other slot is kept
    have hHne : (H.node p).get s ≠ some bn := fun h =>
      hxs (hR.get_eq_some hx hlx hp hnt hbn (hC.get_of_ne hq₁ hq₂ hb₁ hb₂ h))
    rw [if_neg fun h => hHne h.2, if_neg fun h => hHne h.2, hHp,
      across_eq_of_not_split (fun _ => le_addSplit n) fun z hz hz' => ?_]
    rcases addSplit_eq_true.mp hz' with hz' | rfl
    · simp [hz] at hz'
    · intro h; rw [h] at hHp; exact hHne (by rw [hHp]; simp [hstab z hnt, hbn])

theorem ChildrenLinked.diamond_links_child (b : Bool) (s : Slot) :
    (m'.node (if b then rc else lc)).get s =
      (across numX numZ (addSplit (addSplit S a) n) (a.child b) s).bind m'.locate := by
  obtain ⟨hstab, hnewa, hnewn⟩ := hC.diamond_locate ha hloc hnt hbn hCn hm'
  obtain ⟨hna, hln⟩ := hR.partner_leaf ha hla hn
  obtain ⟨hc₁, hc₂, -⟩ := hC.diamond_cross hCn hm'
  have hlen := nbr_steps_length a hn
  refine hR.get_child ha hla hloc b (fun u hu => ?_)
    (hR.closed.diamond_child hla hln hlen (.inl rfl) _)
    (fun n' h => by rw [hn] at h; cases h; exact hR.closed.diamond_child hla hln hlen (.inr rfl) _)
    m'.locate hstab _ ?_ ?_ ?_ s
  · obtain ⟨h₁, h₂⟩ := nbr_leg_of_diamond hn hna (Slot.leg_ne_base b) (.inl rfl) hu
    rw [addSplit_of_ne h₂, addSplit_of_ne h₁]
  all_goals cases b <;>
    simp [hc₁, hc₂, hC.diamond_first_children hR ha hla hloc hn hnt hbn hCn hm' (.inl rfl),
      hC.diamond_first_children hR ha hla hloc hn hnt hbn hCn hm' (.inr rfl), hC.node_lc,
      hC.node_rc, hnewa, hnewn, hn, Slot.leg, TriTreeNode.get, TriTreeNode.put,
      -Mesh.locate_child]

theorem ChildrenLinked.diamond_links_partner_child (b : Bool) (s : Slot) :
    (m'.node (if b then nr else nl)).get s =
      (across numX numZ (addSplit (addSplit S a) n) (n.child b) s).bind m'.locate := by
  obtain ⟨hstab, hnewa, hnewn⟩ := hC.diamond_locate ha hloc hnt hbn hCn hm'
  obtain ⟨hna, hln⟩ := hR.partner_leaf ha hla hn
  obtain ⟨-, -, hc₃, hc₄, -⟩ := hC.diamond_cross hCn hm'
  have hlen := nbr_steps_length a hn
  have hbnget := hC.partner_get hR ha hla hloc hn hnt hbn
  refine hR.get_child hnt hln hbn b (fun u hu => ?_)
    (hR.closed.diamond_child hla hln hlen (.inr rfl) _)
    (fun n' h => by rw [hna] at h; cases h; exact hR.closed.diamond_child hla hln hlen (.inl rfl) _)
    m'.locate hstab _ ?_ ?_ ?_ s
  · obtain ⟨h₁, h₂⟩ := nbr_leg_of_diamond hn hna (Slot.leg_ne_base b) (.inr rfl) hu
    rw [addSplit_of_ne h₂, addSplit_of_ne h₁]
  all_goals cases b <;>
    simp [hc₃, hc₄, hCn.node_lc, hCn.node_rc, hnewa, hnewn, hna,
      show (H.node bn).LeftNeighbor = (m.node bn).LeftNeighbor from hbnget .left,
      show (H.node bn).RightNeighbor = (m.node bn).RightNeighbor from hbnget .right,
      Slot.leg, TriTreeNode.get, TriTreeNode.put, -Mesh.locate_child]

end Diamond

/-- **A diamond splits** (lines 224-266, the partner's split nested in the first): both
halves take children and link them in, and the children are cross-linked over the shared
hypotenuse; the mesh represents the split set with the leaf and its partner added. -/
theorem Represents.diamond {a n : Addr} {tri bn lc rc : TriPtr} {thr fuel : Nat}
    {m₂ m' : Mesh} {r : Bool} (ha : InTree numX numZ S a) (hla : S a = false)
    (hloc : m.locate a = some tri) (hn : nbr numX numZ a .base = some n)
    (hnt : InTree numX numZ S n) (hbn : m.locate n = some bn)
    (hal : m.allocate thr = (some (lc, rc), m₂))
    (hs : Split thr fuel ((m₂.setChildren tri (some lc) (some rc)).linkChildren tri lc rc) bn =
      some (m', r)) (hfa : m'.failedAllocs = m.failedAllocs) :
    Represents numX numZ m' (splitDiamond numX numZ S a) ∧
    (∀ x, InTree numX numZ S x → m'.locate x = m.locate x) ∧
      m'.illegalLinks = m.illegalLinks := by
  obtain ⟨-, hln⟩ := hR.partner_leaf ha hla hn
  -- the first half
  have hC := hR.firstHalf ha hla hloc hal
  have hH := hR.firstHalf_illegalLinks ha hla hloc hal
  generalize (m₂.setChildren tri (some lc) (some rc)).linkChildren tri lc rc = H at hC hs hH
  -- the partner's split goes straight to its own children
  obtain ⟨hbnleaf, hbnbase, htribase⟩ := hC.partner_ready hR ha hla hloc hn hnt hbn
  obtain ⟨f, nl, nr, m₅, hal₂, hp₂⟩ := split_reciprocal_allocates hbnleaf hbnbase htribase hs
    (hfa.trans hC.failedAllocs.symm)
  -- the partner's half
  have hCn := hC.partner_linked hR ha hla hloc hn hnt hbn hal₂
  have hbnget := hC.partner_get hR ha hla hloc hn hnt hbn
  have hbn₁ : bn ≠ lc := hC.lc_eq ▸ hR.toShape.ne_fresh hnt hbn le_rfl
  have hbn₂ : bn ≠ rc := hC.rc_eq ▸ hR.toShape.ne_fresh hnt hbn (Nat.le_succ _)
  have hbnH : H.locate n = some bn := by rw [hC.stab n hnt, hbn]
  -- nor does the partner's half take an "illegal neighbor" branch: its leg neighbors name it
  have hH₂ : ((m₅.setChildren bn (some nl) (some nr)).linkChildren bn nl nr).illegalLinks =
      H.illegalLinks := by
    have hbt : bn ≠ tri := (hR.across_partner ha hla hloc hn hnt hbn).2.2
    have hleg : ∀ t q, (H.node bn).get t = some q →
        LegReady H bn thr q ∧ ∃ s, (H.node q).get s = some bn := fun t q hq => by
      rw [hbnget] at hq
      have hrdy := hR.legReady hnt hln hbn hq thr
      obtain ⟨s, hs⟩ := hR.names_back hnt hln hbn hq
      refine ⟨hC.legReady hbn₁ hbn₂ hrdy, s, ?_⟩
      rw [hC.get_other q (hC.lc_eq ▸ hrdy.2.1 _ le_rfl) (hC.rc_eq ▸ hrdy.2.1 _ (Nat.le_succ _)),
        if_neg fun h => hbt (Option.some.inj (hs.symm.trans h.2)),
        if_neg fun h => hbt (Option.some.inj (hs.symm.trans h.2))]
      exact hs
    exact Mesh.allocate_linkChildren_illegalLinks hal₂
      (fun _ hi e => hC.shape.ne_fresh (hnt.mono fun _ => le_addSplit a) hbnH hi e.symm)
      (fun l hl => hleg .left l hl) (fun r hr => hleg .right r hr)
      (fun l hl => by
        rw [show (H.node bn).RightNeighbor = (H.node bn).get .right from rfl, hbnget]
        exact hR.legs_ne hnt hln hbn (by rw [← hbnget]; exact hl))
  generalize (m₅.setChildren bn (some nl) (some nr)).linkChildren bn nl nr = H₂ at hCn hp₂ hH₂
  -- the partner's base neighbor `tri` is split, so the two halves are cross-linked
  have hm' : H₂.crossLink nl nr lc rc = m' :=
    ((hC.partnerStep_iff hR ha hla hloc hn hnt hbn hCn).mp hp₂).symm
  obtain ⟨hstab, hnewa, hnewn⟩ := hC.diamond_locate ha hloc hnt hbn hCn hm'
  rw [splitDiamond_of_nbr hn]
  refine ⟨{ hCn.shape.congr (fun p => by subst hm'; simp) (by subst hm'; rfl) with
    closed := ?_, links := ?_ }, hstab, by subst hm'; exact hH₂.trans hH⟩
  · rw [← splitDiamond_of_nbr hn]
    exact hR.closed.splitDiamond ha fun n' h => by rw [hn] at h; cases h; exact hnt
  intro x p s hx hlx hp
  rcases inTree_addSplit.mp hx with hx | ⟨-, b, rfl⟩
  · rcases inTree_addSplit.mp hx with hx | ⟨-, b, rfl⟩
    · -- an old leaf
      have hxn : x ≠ n := by rintro rfl; simp [addSplit] at hlx
      have hxa : x ≠ a := by rintro rfl; simp [addSplit] at hlx
      rw [addSplit_of_ne hxn, addSplit_of_ne hxa] at hlx
      rw [hstab x hx] at hp
      exact hC.diamond_links_old hR ha hla hloc hn hnt hbn hCn hm' hx hxa hxn hlx hp s
    · -- a child of the leaf
      rw [hnewa b, Option.some.injEq] at hp
      subst hp
      exact hC.diamond_links_child hR ha hla hloc hn hnt hbn hCn hm' b s
  · -- a child of the partner
    rw [hnewn b, Option.some.injEq] at hp
    subst hp
    exact hC.diamond_links_partner_child hR ha hla hloc hn hnt hbn hCn hm' b s

/-- **The end of `Split` on a conforming mesh** (lines 259-275), after the leaf's own half: on
the map edge the children's outer links are cleared; otherwise the base neighbor is the leaf's
partner, a leaf, and `Split` goes on with it. -/
theorem Represents.partnerStep_cases {a : Addr} {tri lc rc : TriPtr} {thr fuel : Nat}
    {m₂ H m' : Mesh} (ha : InTree numX numZ S a) (hla : S a = false)
    (hloc : m.locate a = some tri)
    (hrec : ∀ n, nbr numX numZ a .base = some n → InTree numX numZ S n)
    (hal : m.allocate thr = (some (lc, rc), m₂))
    (hH : (m₂.setChildren tri (some lc) (some rc)).linkChildren tri lc rc = H) :
    PartnerStep thr fuel H tri lc rc m' ↔
      (nbr numX numZ a .base = none ∧ m' = (H.setSlot lc .right none).setSlot rc .left none) ∨
      ∃ n bn r, nbr numX numZ a .base = some n ∧ m.locate n = some bn ∧
        Split thr fuel H bn = some (m', r) := by
  have hC := hR.firstHalf ha hla hloc hal
  rw [hH] at hC
  have hnotself : ∀ t, (m.node tri).get t ≠ some tri := fun t h =>
    (hR.legReady ha hla hloc h thr).1 rfl
  have htribase : (H.node tri).BaseNeighbor = (across numX numZ S a .base).bind m.locate := by
    rw [show (H.node tri).BaseNeighbor = (H.node tri).get .base from rfl,
      hC.get_other tri (hC.lc_eq ▸ hR.toShape.ne_fresh ha hloc le_rfl)
        (hC.rc_eq ▸ hR.toShape.ne_fresh ha hloc (Nat.le_succ _)),
      if_neg fun h => hnotself .left h.1, if_neg fun h => hnotself .right h.1,
      hR.links a tri .base ha hla hloc]
  unfold PartnerStep
  rw [htribase]
  cases hn : nbr numX numZ a .base with
  | none =>
    rw [show across numX numZ S a .base = none by simp [across, hn], Option.none_bind]
    exact ⟨fun h => .inl ⟨rfl, h⟩, fun h => h.elim And.right fun ⟨_, _, _, h, _⟩ => nomatch h⟩
  | some n =>
    have hnt := hrec n hn
    obtain ⟨bn, hbn⟩ := hR.located n hnt
    rw [show across numX numZ S a .base = some n from
      across_base_eq_some.mpr ⟨n, hn, .inl ⟨hnt, rfl⟩⟩, Option.some_bind, hbn]
    have hbt : bn ≠ tri := fun e => nbr_ne_self a .base (by
      rw [hn, hR.inj n a bn hnt ha hbn (e ▸ hloc)])
    have hln : (m.node bn).IsLeaf = true := by
      rw [hR.leaf n bn hnt hbn, (across_leaf hR.closed ha hla
        (across_base_eq_some.mpr ⟨n, hn, .inl ⟨hnt, rfl⟩⟩)).2]; rfl
    simp only [TriTreeNode.IsLeaf, Bool.and_eq_true, Option.isNone_iff_eq_none] at hln
    simp only [(hC.children bn hbt).1, (hC.children bn hbt).2, hln.1, hln.2]
    refine ⟨fun ⟨r, hs⟩ => .inr ⟨n, bn, r, rfl, hbn, hs⟩, ?_⟩
    rintro (⟨h, -⟩ | ⟨n', bn', r, hn', hbn', hs⟩)
    · cases h
    · cases hn'; rw [hbn] at hbn'; cases hbn'; exact ⟨r, hs⟩

/-- **The end of `Split` on a leaf whose base neighbor names it back** (lines 224-275): the
mesh represents the split set with the leaf and its partner added. -/
theorem Represents.finish {a : Addr} {tri lc rc : TriPtr} {thr fuel : Nat} {m₂ m' : Mesh}
    (ha : InTree numX numZ S a) (hla : S a = false) (hloc : m.locate a = some tri)
    (hrec : ∀ n, nbr numX numZ a .base = some n → InTree numX numZ S n)
    (hal : m.allocate thr = (some (lc, rc), m₂))
    (hp : PartnerStep thr fuel ((m₂.setChildren tri (some lc) (some rc)).linkChildren tri lc rc)
      tri lc rc m') (hfa : m'.failedAllocs = m.failedAllocs) :
    Represents numX numZ m' (splitDiamond numX numZ S a) ∧
    (∀ x, InTree numX numZ S x → m'.locate x = m.locate x) ∧
      m'.illegalLinks = m.illegalLinks := by
  rcases (hR.partnerStep_cases ha hla hloc hrec hal rfl).mp hp with ⟨hn, rfl⟩ |
    ⟨n, bn, r, hn, hbn, hs⟩
  · obtain ⟨hR', hstab⟩ := hR.edge ha hla hloc hn hal
    exact ⟨hR', hstab, hR.firstHalf_illegalLinks ha hla hloc hal⟩
  · exact hR.diamond ha hla hloc hn (hrec n hn) hbn hal hs hfa

end Links

/-- **`Split` refines the split forest.** A call of `Split` on a node of the forest that
returns with no failed `Allocate` leaves a mesh that represents the least closed split set
holding the old one and the node; every old node of the forest stays where it was, and neither
empty "illegal neighbor" branch (lines 243-244, 255-256) is ever taken. -/
theorem split_represents (thr : Nat) : ∀ (fuel : Nat) (m : Mesh) (S : Addr → Bool) (a : Addr)
    (tri : TriPtr) (m' : Mesh) (r : Bool), Represents numX numZ m S → InTree numX numZ S a →
    m.locate a = some tri → Split thr fuel m tri = some (m', r) →
    m'.failedAllocs = m.failedAllocs →
    ∃ S', Represents numX numZ m' S' ∧ LeastSplit numX numZ S a S' ∧
      (∀ x, InTree numX numZ S x → m'.locate x = m.locate x) ∧
        m'.illegalLinks = m.illegalLinks := by
  intro fuel
  induction fuel with
  | zero => intro _ _ _ _ _ _ _ _ _ h; cases h
  | succ fuel ih =>
    intro m S a tri m' r hR ha hloc h hfa
    have hleaf := hR.leaf a tri ha hloc
    rcases split_some_cases thr fuel h with ⟨hl, rfl, -⟩ | ⟨hl, m₁, hf, hrest⟩
    · -- already split
      rw [hl] at hleaf
      exact ⟨S, hR, LeastSplit.refl (by simpa using hleaf.symm), fun _ _ => rfl, rfl⟩
    have hla : S a = false := by rw [hl] at hleaf; simpa using hleaf.symm
    have hm₁ : m.failedAllocs ≤ m₁.failedAllocs :=
      hf.keeps (P := fun m₁ => m.failedAllocs ≤ m₁.failedAllocs) le_rfl
        fun _ _ _ hs => split_failedAllocs_le hs
    rcases hrest with ⟨m₂, hal, rfl, -⟩ | ⟨lc, rc, m₂, hal, -, hp⟩
    · -- a failed allocation
      rw [Mesh.setChildren_failedAllocs, Mesh.allocate_failedAllocs hal] at hfa
      simp at hfa; omega
    have hfa₁ : m₁.failedAllocs = m.failedAllocs := by
      have := hp.failedAllocs_le split_failedAllocs_le
      simp only [Mesh.linkChildren_failedAllocs, Mesh.setChildren_failedAllocs,
        Mesh.allocate_failedAllocs hal] at this
      simp at this; omega
    obtain ⟨S₁, hR₁, hle₁, hleast₁, hdepth₁, hstab₁, hla₁, hrec₁, hill₁⟩ : ∃ S₁,
        Represents numX numZ m₁ S₁ ∧ (∀ x, S x = true → S₁ x = true) ∧
        (∀ T, Closed numX numZ T → (∀ x, S x = true → T x = true) → T a = true →
          ∀ x, S₁ x = true → T x = true) ∧
        (∀ x, S₁ x = true → S x = false → x.steps.length < a.steps.length) ∧
        (∀ x, InTree numX numZ S x → m₁.locate x = m.locate x) ∧ S₁ a = false ∧
        (∀ n, nbr numX numZ a .base = some n → InTree numX numZ S₁ n) ∧
        m₁.illegalLinks = m.illegalLinks := by
      -- the forced split: none, or first the split of the coarser base neighbor's parent
      rcases hR.forcedStep_cases ha hla hloc thr fuel with ⟨hrec, hiff⟩ |
        ⟨u, b, hu, hni, hlen, hqt, hb, hiff⟩
      · obtain rfl := (hiff m₁).mp hf
        exact ⟨S, hR, fun _ => id, fun _ _ hT _ => hT, fun _ h h' => by simp [h'] at h,
          fun _ _ => rfl, hla, hrec, rfl⟩
      obtain ⟨r₁, hs⟩ := (hiff m₁).mp hf
      obtain ⟨hne, -⟩ := not_inTree (nbr_inGrid a ha.1 hu) hni
      obtain ⟨S₁, hR₁, hls, hstab, hill⟩ := ih m S u.parent b m₁ r₁ hR hqt hb hs hfa₁
      refine ⟨S₁, hR₁, hls.le, fun T hT hST hTa => hls.least T hT hST ?_, fun x hx hx' => ?_,
        hstab, ?_, fun n hn => ?_, hill⟩
      · exact (hT.inTree _ (hT.partner a u hTa hu)).2.resolve_left hne
      · have := hls.depth x hx hx'; omega
      · refine Bool.eq_false_iff.mpr fun h' => ?_
        have := hls.depth a h' hla; omega
      · rw [hu, Option.some.injEq] at hn; subst hn
        exact ⟨nbr_inGrid a ha.1 hu, .inr hls.mem⟩
    -- then the leaf and its partner split together
    obtain ⟨hR', hstab', hill'⟩ :=
      hR₁.finish (ha.mono hle₁) hla₁ ((hstab₁ a ha).trans hloc) hrec₁ hal hp
      (hfa.trans hfa₁.symm)
    refine ⟨splitDiamond numX numZ S₁ a, hR', ⟨fun x hx => le_splitDiamond a (hle₁ x hx),
      splitDiamond_eq_true.mpr (.inr (.inl rfl)), fun T hT hST hTa x hx => ?_,
      fun x hx hx' => ?_⟩, fun x hx => (hstab' x (hx.mono hle₁)).trans (hstab₁ x hx),
      hill'.trans hill₁⟩
    · rcases splitDiamond_eq_true.mp hx with hx | rfl | hx
      · exact hleast₁ T hT hST hTa x hx
      · exact hTa
      · exact hT.partner a x hTa hx
    · rcases splitDiamond_eq_true.mp hx with hx | rfl | hx
      · exact (hdepth₁ x hx hx').le
      · exact le_rfl
      · exact (nbr_steps_length a hx).le

/-- **The fresh grid represents the empty forest**: its roots are leaves linked as `nbr` links
the roots. -/
theorem represents_freshMesh (poolSize : Nat → Nat) :
    Represents numX numZ (freshMesh numX numZ poolSize) fun _ => false := by
  -- the forest is the roots of the grid
  have hroot : ∀ a, InTree numX numZ (fun _ => false) a → a.steps = [] := fun a ha => by
    simpa [InTree] using ha.2
  have hleaf : ∀ r px pz, (linkedRoot numX numZ (TriPtr.root r px pz)).IsLeaf = true := by
    intro r px pz; cases r <;> rfl
  refine ⟨⟨?located, ?leaf, ?inj, fun a _ ha hs => absurd (hroot a ha) hs, fun _ _ _ => rfl,
    fun px pz r _ => hleaf r px pz⟩, ⟨fun _ h => by simp at h, fun _ _ h => by simp at h⟩, ?links⟩
  case located =>
    rintro ⟨px, pz, r, steps⟩ ha
    obtain rfl := hroot _ ha
    exact ⟨_, rfl⟩
  case leaf =>
    rintro ⟨px, pz, r, steps⟩ p ha hp
    obtain rfl := hroot _ ha
    obtain rfl := Option.some.inj hp
    exact hleaf r px pz
  case inj =>
    rintro ⟨px, pz, r, s⟩ ⟨px', pz', r', s'⟩ p ha hb hpa hpb
    obtain rfl := hroot _ ha
    obtain rfl := hroot _ hb
    obtain ⟨rfl, rfl, rfl⟩ :=
      TriPtr.root_inj ((Option.some.inj hpa).trans (Option.some.inj hpb).symm)
    rfl
  case links =>
    rintro ⟨px, pz, r, steps⟩ p s ha _ hp
    obtain rfl := hroot _ ha
    obtain rfl := Option.some.inj hp
    obtain ⟨hx, hz⟩ := ha.1
    cases r <;> cases s <;>
      simp [freshMesh, linkedRoot, TriPtr.root, TriTreeNode.get, across, rootNbr, InTree,
        Addr.InGrid, hx, hz] <;> split_ifs <;> rfl

end Represents

end SpringRoam
