import SpringRoam.Node

/-!
# The split forest, abstractly

A frame starts from a grid of freshly reset patches, and every node `Split` creates hangs below
one of their roots. Here a node is named by where it sits (`Addr`): its patch, its root, and the
child steps from that root. Below the roots lies the uniform bintree refinement of the grid, in
which a node has up to three neighbors of its own depth (`nbr`): its diamond partner across the
hypotenuse, and the nodes across its two legs. The roots of adjacent patches meet left leg to
left leg and right leg to right leg (the links `linkedRoot` models); below the roots a left leg
always meets a right leg.

A state of the mesh is the set `S` of its split nodes. It is `Closed` when a split node's
parent and diamond partner are split as well; then every leaf has across each of its edges one
leaf (`across`): the neighbor of its depth, that neighbor's child along the edge when the
neighbor is split, or the neighbor's parent when the neighbor is not yet a node.
-/

namespace SpringRoam

/-- A node of the forest: root `root` (`false` for `baseLeft`) of the patch at `(px, pz)`, and
the child steps down from that root, the last step first. -/
structure Addr where
  px : Nat
  pz : Nat
  root : Bool
  steps : List Bool
deriving DecidableEq, Repr

namespace Addr

/-- The left (`false`) or right (`true`) child. -/
def child (a : Addr) (b : Bool) : Addr := { a with steps := b :: a.steps }

/-- The parent of a node below a root. -/
def parent (a : Addr) : Addr := { a with steps := a.steps.tail }

@[simp] theorem child_px (a : Addr) (b : Bool) : (a.child b).px = a.px := rfl
@[simp] theorem child_pz (a : Addr) (b : Bool) : (a.child b).pz = a.pz := rfl
@[simp] theorem child_root (a : Addr) (b : Bool) : (a.child b).root = a.root := rfl
@[simp] theorem child_steps (a : Addr) (b : Bool) : (a.child b).steps = b :: a.steps := rfl
@[simp] theorem parent_child (a : Addr) (b : Bool) : (a.child b).parent = a := rfl

theorem child_inj {a a' : Addr} {b b' : Bool} (h : a.child b = a'.child b') : a = a' ∧ b = b' := by
  cases a; cases a'; simp only [child, mk.injEq, List.cons.injEq] at h
  exact ⟨by simp [h], h.2.2.2.1⟩

theorem child_ne (a : Addr) (b : Bool) : a.child b ≠ a := by
  intro h; have := congrArg (fun x => x.steps.length) h; simp at this

@[simp] theorem parent_root (px pz : Nat) (r : Bool) :
    (⟨px, pz, r, []⟩ : Addr).parent = ⟨px, pz, r, []⟩ := rfl

theorem eq_root_or_child (a : Addr) : a.steps = [] ∨ ∃ (a' : Addr) (b : Bool), a = a'.child b := by
  obtain ⟨px, pz, r, _ | ⟨b, ρ⟩⟩ := a
  · exact .inl rfl
  · exact .inr ⟨⟨px, pz, r, ρ⟩, b, rfl⟩

/-- Induction over a node's steps: the roots, and the children of every node. -/
@[elab_as_elim]
theorem stepInduction {P : Addr → Prop} (root : ∀ px pz r, P ⟨px, pz, r, []⟩)
    (child : ∀ a b, P a → P (a.child b)) (a : Addr) : P a := by
  obtain ⟨px, pz, r, steps⟩ := a
  induction steps with
  | nil => exact root px pz r
  | cons b ρ ih => exact child ⟨px, pz, r, ρ⟩ b ih

/-- The node lies on the grid of `numX × numZ` patches. -/
def InGrid (numX numZ : Nat) (a : Addr) : Prop := a.px < numX ∧ a.pz < numZ

instance (numX numZ : Nat) (a : Addr) : Decidable (a.InGrid numX numZ) :=
  inferInstanceAs (Decidable (_ ∧ _))

@[simp] theorem inGrid_child {numX numZ : Nat} (a : Addr) (b : Bool) :
    (a.child b).InGrid numX numZ ↔ a.InGrid numX numZ := Iff.rfl

end Addr

/-- The other leg, and the base for the base. -/
def Slot.flip : Slot → Slot
  | .base => .base
  | .left => .right
  | .right => .left

/-- The child whose hypotenuse is the leg `s`: the left child's is the left leg. -/
def Slot.childOf : Slot → Bool
  | .right => true
  | _ => false

/-- The left (`false`) or right (`true`) leg: the hypotenuse of child `b`. -/
def Slot.leg : Bool → Slot
  | false => .left
  | true => .right

@[simp] theorem Slot.childOf_leg (b : Bool) : (Slot.leg b).childOf = b := by cases b <;> rfl

@[simp] theorem Slot.leg_ne_base (b : Bool) : Slot.leg b ≠ .base := by cases b <;> simp [Slot.leg]

/-- The slot of a neighbor of `a` across `a`'s slot `s` that names `a` back: the same slot
between roots, the other leg below them. -/
def back (a : Addr) (s : Slot) : Slot := if a.steps = [] then s else s.flip

@[simp] theorem Slot.flip_flip (s : Slot) : s.flip.flip = s := by cases s <;> rfl

@[simp] theorem back_base (a : Addr) : back a .base = .base := by
  unfold back; split <;> rfl

theorem back_child (a : Addr) (b : Bool) (s : Slot) : back (a.child b) s = s.flip := by
  simp [back]

theorem back_ne_base (a : Addr) {s : Slot} (hs : s ≠ .base) : back a s ≠ .base := by
  unfold back; split <;> cases s <;> simp_all [Slot.flip]

section Grid

variable (numX numZ : Nat)

/-- The neighbors of the roots of patch `(px, pz)`, as `linkedRoot` links them. -/
def rootNbr (px pz : Nat) : Bool → Slot → Option Addr
  | false, .base => some ⟨px, pz, true, []⟩
  | false, .left => if 0 < px then some ⟨px - 1, pz, true, []⟩ else none
  | false, .right => if 0 < pz then some ⟨px, pz - 1, true, []⟩ else none
  | true, .base => some ⟨px, pz, false, []⟩
  | true, .left => if px + 1 < numX then some ⟨px + 1, pz, false, []⟩ else none
  | true, .right => if pz + 1 < numZ then some ⟨px, pz + 1, false, []⟩ else none

/-- `nbr` on the node of root `r` of patch `(px, pz)` with steps `ρ`, by recursion on the last
step: a left child's left leg meets its sibling, its right leg the right child of its parent's
partner, and its hypotenuse the child of its parent's left neighbor along that leg; the right
child mirrors it. -/
def nbrAux (px pz : Nat) (r : Bool) : List Bool → Slot → Option Addr
  | [], s => rootNbr numX numZ px pz r s
  | false :: ρ, .base => (nbrAux px pz r ρ .left).map (·.child !ρ.isEmpty)
  | false :: ρ, .left => some ⟨px, pz, r, true :: ρ⟩
  | false :: ρ, .right => (nbrAux px pz r ρ .base).map (·.child true)
  | true :: ρ, .base => (nbrAux px pz r ρ .right).map (·.child ρ.isEmpty)
  | true :: ρ, .left => (nbrAux px pz r ρ .base).map (·.child false)
  | true :: ρ, .right => some ⟨px, pz, r, false :: ρ⟩

/-- **The neighbor of the same depth** across slot `s` of `a` in the uniform refinement of the
grid, `none` across the map border. -/
def nbr (a : Addr) (s : Slot) : Option Addr := nbrAux numX numZ a.px a.pz a.root a.steps s

variable {numX numZ}

@[simp] theorem nbr_root (px pz : Nat) (r : Bool) (s : Slot) :
    nbr numX numZ ⟨px, pz, r, []⟩ s = rootNbr numX numZ px pz r s := rfl

section Children

variable (a : Addr)

@[simp] theorem nbr_lchild_base :
    nbr numX numZ (a.child false) .base = (nbr numX numZ a .left).map (·.child !a.steps.isEmpty) :=
  rfl
@[simp] theorem nbr_lchild_left : nbr numX numZ (a.child false) .left = some (a.child true) := rfl
@[simp] theorem nbr_lchild_right :
    nbr numX numZ (a.child false) .right = (nbr numX numZ a .base).map (·.child true) := rfl
@[simp] theorem nbr_rchild_base :
    nbr numX numZ (a.child true) .base = (nbr numX numZ a .right).map (·.child a.steps.isEmpty) :=
  rfl
@[simp] theorem nbr_rchild_left :
    nbr numX numZ (a.child true) .left = (nbr numX numZ a .base).map (·.child false) := rfl
@[simp] theorem nbr_rchild_right : nbr numX numZ (a.child true) .right = some (a.child false) :=
  rfl

end Children

theorem nbr_steps_length : ∀ (a : Addr) {s : Slot} {n : Addr}, nbr numX numZ a s = some n →
    n.steps.length = a.steps.length := by
  intro a
  induction a using Addr.stepInduction with
  | root px pz r =>
    intro s n h
    cases r <;> cases s <;> simp only [nbr_root, rootNbr] at h <;>
      (try split_ifs at h) <;> simp only [Option.some.injEq, reduceCtorEq] at h <;> subst h <;> rfl
  | child a b ih =>
    intro s n h
    cases b <;> cases s <;>
      simp only [nbr_lchild_base, nbr_lchild_left, nbr_lchild_right, nbr_rchild_base,
        nbr_rchild_left, nbr_rchild_right, Option.map_eq_some', Option.some.injEq] at h <;>
      first
      | (subst h; rfl)
      | (obtain ⟨x, hx, rfl⟩ := h; simp [ih hx])

theorem nbr_inGrid : ∀ (a : Addr) {s : Slot} {n : Addr}, a.InGrid numX numZ →
    nbr numX numZ a s = some n → n.InGrid numX numZ := by
  intro a
  induction a using Addr.stepInduction with
  | root px pz r =>
    intro s n hg h
    simp only [Addr.InGrid] at hg ⊢
    cases r <;> cases s <;> simp only [nbr_root, rootNbr] at h <;>
      (try split_ifs at h) <;> simp only [Option.some.injEq, reduceCtorEq] at h <;> subst h <;>
      simp only <;> omega
  | child a b ih =>
    intro s n hg h
    cases b <;> cases s <;>
      simp only [nbr_lchild_base, nbr_lchild_left, nbr_lchild_right, nbr_rchild_base,
        nbr_rchild_left, nbr_rchild_right, Option.map_eq_some', Option.some.injEq] at h <;>
      first
      | (subst h; exact hg)
      | (obtain ⟨x, hx, rfl⟩ := h; exact (Addr.inGrid_child _ _).mpr (ih hg hx))

theorem isEmpty_of_nbr {a n : Addr} {s : Slot} (h : nbr numX numZ a s = some n) :
    n.steps.isEmpty = a.steps.isEmpty := by
  have := nbr_steps_length a h
  cases hn : n.steps <;> cases ha : a.steps <;> simp_all

theorem back_of_nbr {a n : Addr} {s t : Slot} (h : nbr numX numZ a s = some n) :
    back n (back a t) = t := by
  have := isEmpty_of_nbr h
  unfold back
  cases hn : n.steps <;> cases ha : a.steps <;> simp_all

/-- **The neighbor across `s` names the node back**, across its slot `back a s`. -/
theorem nbr_back : ∀ (a : Addr) {s : Slot} {n : Addr}, a.InGrid numX numZ →
    nbr numX numZ a s = some n → nbr numX numZ n (back a s) = some a := by
  intro a
  induction a using Addr.stepInduction with
  | root px pz r =>
    intro s n hg h
    obtain ⟨hx, hz⟩ : px < numX ∧ pz < numZ := hg
    cases r <;> cases s <;> simp only [nbr_root, rootNbr] at h <;>
      (try split_ifs at h) <;> simp only [Option.some.injEq, reduceCtorEq] at h <;> subst h
    all_goals simp only [back, if_true, nbr_root, rootNbr]
    all_goals rw [if_pos (by omega)]; congr 2; try omega
  | child a b ih =>
    intro s n hg h
    rw [back_child]
    rcases hs : a.steps with _ | ⟨c, ρ⟩
    · -- the children of a root
      have hb : ∀ {t x}, nbr numX numZ a t = some x → nbr numX numZ x t = some a :=
        fun hx => by simpa [back, hs] using ih hg hx
      cases b <;> cases s <;> simp [hs, Slot.flip] at h ⊢ <;>
        first
        | (subst h; simp)
        | (obtain ⟨x, hx, rfl⟩ := h
           have he : x.steps.isEmpty = true := by rw [isEmpty_of_nbr hx, hs]; rfl
           simp [he, hb hx])
    · -- deeper
      have hb : ∀ {t x}, nbr numX numZ a t = some x → nbr numX numZ x t.flip = some a :=
        fun hx => by simpa [back, hs] using ih hg hx
      cases b <;> cases s <;> simp [hs, Slot.flip] at h ⊢ <;>
        first
        | (subst h; simp)
        | (obtain ⟨x, hx, rfl⟩ := h
           have he : x.steps.isEmpty = false := by rw [isEmpty_of_nbr hx, hs]; rfl
           have hx' := hb hx
           simp only [Slot.flip] at hx'
           simp [he, hx'])

theorem nbr_ne_and_inj : ∀ a : Addr, (∀ s, nbr numX numZ a s ≠ some a) ∧
    ∀ s t x, nbr numX numZ a s = some x → nbr numX numZ a t = some x → s = t := by
  intro a
  induction a using Addr.stepInduction with
  | root px pz r =>
    constructor
    · intro s h
      cases r <;> cases s <;> simp only [nbr_root, rootNbr] at h <;> (try split_ifs at h) <;>
        simp at h
    · intro s t x hs ht
      cases r <;> cases s <;> cases t <;> simp only [nbr_root, rootNbr] at hs ht <;>
        (try split_ifs at hs) <;> (try split_ifs at ht) <;>
        simp only [Option.some.injEq, reduceCtorEq] at hs ht <;> subst hs
      all_goals first | rfl | (simp only [Addr.mk.injEq] at ht; omega)
  | child a b ih =>
    obtain ⟨hne, hinj⟩ := ih
    have key : ∀ {s t u v c c'}, nbr numX numZ a s = some u → nbr numX numZ a t = some v →
        u.child c = v.child c' → s = t := fun hu hv h => by
      rw [(Addr.child_inj h).1] at hu; exact hinj _ _ _ hu hv
    have self : ∀ {s u c c'}, nbr numX numZ a s = some u → u.child c ≠ a.child c' :=
      fun hu h => hne _ ((Addr.child_inj h).1 ▸ hu)
    constructor
    · intro s h
      cases b <;> cases s <;> simp only [nbr_lchild_base, nbr_lchild_left, nbr_lchild_right,
        nbr_rchild_base, nbr_rchild_left, nbr_rchild_right, Option.map_eq_some',
        Option.some.injEq] at h
      all_goals first
        | exact absurd (Addr.child_inj h).2 (by decide)
        | (obtain ⟨u, hu, h⟩ := h; exact self hu h)
    · intro s t x hs ht
      cases b <;> cases s <;> cases t <;> simp only [nbr_lchild_base, nbr_lchild_left,
        nbr_lchild_right, nbr_rchild_base, nbr_rchild_left, nbr_rchild_right,
        Option.map_eq_some', Option.some.injEq] at hs ht
      all_goals first
        | rfl
        | (obtain ⟨u, hu, rfl⟩ := hs; obtain ⟨v, hv, h⟩ := ht
           first
           | exact absurd (Addr.child_inj h).2 (by decide)
           | exact absurd (key hv hu h) (by decide))
        | (obtain ⟨u, hu, rfl⟩ := hs; exact absurd ht (self hu).symm)
        | (subst hs; obtain ⟨v, hv, h⟩ := ht; exact absurd h (self hv))

theorem nbr_ne_self (a : Addr) (s : Slot) : nbr numX numZ a s ≠ some a :=
  (nbr_ne_and_inj a).1 s

theorem nbr_slot_inj {a x : Addr} {s t : Slot} (hs : nbr numX numZ a s = some x)
    (ht : nbr numX numZ a t = some x) : s = t :=
  (nbr_ne_and_inj a).2 s t x hs ht

theorem nbr_child_childOf_base (x : Addr) {t : Slot} (ht : t ≠ .base) :
    nbr numX numZ (x.child t.childOf) .base =
      (nbr numX numZ x t).map (·.child (back x t).childOf) := by
  cases t
  · exact absurd rfl ht
  · cases hx : x.steps <;> simp [Slot.childOf, back, Slot.flip, hx]
  · cases hx : x.steps <;> simp [Slot.childOf, back, Slot.flip, hx]

theorem nbr_child_base (x : Addr) (c : Bool) :
    nbr numX numZ (x.child c) .base =
      (nbr numX numZ x (Slot.leg c)).map (·.child (back x (Slot.leg c)).childOf) := by
  have h := @nbr_child_childOf_base numX numZ x (Slot.leg c) (Slot.leg_ne_base c)
  rwa [Slot.childOf_leg] at h

theorem nbr_leg_child_base {x z : Addr} {t : Slot} (hg : x.InGrid numX numZ) (ht : t ≠ .base)
    (hz : nbr numX numZ x t = some z) :
    nbr numX numZ (z.child (back x t).childOf) .base = some (x.child t.childOf) := by
  rw [nbr_child_childOf_base z (back_ne_base x ht), nbr_back x hg hz, back_of_nbr hz]; rfl

end Grid

/-! ### The forest of a split set -/

section Forest

variable (numX numZ : Nat) (S : Addr → Bool)

/-- `a` is a node of the forest whose split nodes are `S`: a root on the grid, or a child of a
split node. -/
def InTree (a : Addr) : Prop := a.InGrid numX numZ ∧ (a.steps = [] ∨ S a.parent = true)

instance (a : Addr) : Decidable (InTree numX numZ S a) :=
  inferInstanceAs (Decidable (_ ∧ (_ ∨ _)))

/-- The split sets a mesh can have: a split node is a node, and its diamond partner is split
as well. -/
structure Closed : Prop where
  inTree : ∀ a, S a = true → InTree numX numZ S a
  partner : ∀ a n, S a = true → nbr numX numZ a .base = some n → S n = true

/-- **The leaf across slot `s` of the leaf `a`**: across the hypotenuse the partner when it is a
node, else the partner's parent; across a leg the neighbor, or the neighbor's child along the
leg when the neighbor is split. -/
def across (a : Addr) : Slot → Option Addr
  | .base => (nbr numX numZ a .base).map fun u => if InTree numX numZ S u then u else u.parent
  | s => (nbr numX numZ a s).map fun u => if S u then u.child (back a s).childOf else u

/-- The split set once `a` is split too. -/
def addSplit (a : Addr) : Addr → Bool := fun x => S x || x == a

/-- The split set once `a` and its diamond partner are split too. -/
def splitDiamond (a : Addr) : Addr → Bool :=
  fun x => S x || x == a || nbr numX numZ a .base == some x

/-- **`S'` is the least closed split set that holds `S` and `a`**, and it adds no node deeper
than `a`. -/
structure LeastSplit (a : Addr) (S' : Addr → Bool) : Prop where
  le : ∀ x, S x = true → S' x = true
  mem : S' a = true
  least : ∀ T, Closed numX numZ T → (∀ x, S x = true → T x = true) → T a = true →
    ∀ x, S' x = true → T x = true
  depth : ∀ x, S' x = true → S x = false → x.steps.length ≤ a.steps.length

variable {numX numZ S}

@[simp] theorem inTree_child (a : Addr) (b : Bool) :
    InTree numX numZ S (a.child b) ↔ a.InGrid numX numZ ∧ S a = true := by
  simp [InTree]

theorem InTree.mono {S' : Addr → Bool} (hle : ∀ y, S y = true → S' y = true) {a : Addr}
    (h : InTree numX numZ S a) : InTree numX numZ S' a :=
  ⟨h.1, h.2.imp_right (hle _)⟩

theorem not_inTree {u : Addr} (hg : u.InGrid numX numZ) (h : ¬ InTree numX numZ S u) :
    u.steps ≠ [] ∧ S u.parent = false := by
  simpa only [InTree, hg, true_and, not_or, Bool.not_eq_true] using h

theorem Closed.parent (hS : Closed numX numZ S) {a : Addr} {b : Bool}
    (h : S (a.child b) = true) : S a = true :=
  ((inTree_child a b).mp (hS.inTree _ h)).2

theorem Closed.child_false (hS : Closed numX numZ S) {a : Addr} (hla : S a = false) (b : Bool) :
    S (a.child b) = false :=
  Bool.eq_false_iff.mpr fun h => by have := hS.parent h; simp [hla] at this

theorem Closed.inTree_nbr_leg (hS : Closed numX numZ S) : ∀ {a : Addr} {s : Slot} {x : Addr},
    InTree numX numZ S a → s ≠ .base → nbr numX numZ a s = some x → InTree numX numZ S x := by
  intro a
  induction a using Addr.stepInduction with
  | root px pz r =>
    intro s x ha _ hx
    refine ⟨nbr_inGrid _ ha.1 hx, .inl ?_⟩
    simpa using nbr_steps_length _ hx
  | child a b _ =>
    intro s x ha hs hx
    obtain ⟨hg, hsa⟩ := (inTree_child a b).mp ha
    cases s
    · exact absurd rfl hs
    all_goals cases b <;> simp only [nbr_lchild_left, nbr_lchild_right, nbr_rchild_left,
      nbr_rchild_right, Option.map_eq_some', Option.some.injEq] at hx
    all_goals first
      | (subst hx; exact (inTree_child _ _).mpr ⟨hg, hsa⟩)
      | (obtain ⟨n, hn, rfl⟩ := hx
         exact (inTree_child _ _).mpr ⟨nbr_inGrid _ hg hn, hS.partner _ _ hsa hn⟩)

theorem across_base_eq_some {a x : Addr} : across numX numZ S a .base = some x ↔
    ∃ u, nbr numX numZ a .base = some u ∧
      (InTree numX numZ S u ∧ x = u ∨ ¬ InTree numX numZ S u ∧ x = u.parent) := by
  simp only [across, Option.map_eq_some']
  refine exists_congr fun u => and_congr_right fun _ => ?_
  split_ifs with h
  · simp [h, eq_comm]
  · simp [h, eq_comm]

theorem across_leg (a : Addr) {s : Slot} (hs : s ≠ .base) : across numX numZ S a s =
    (nbr numX numZ a s).map fun u => if S u then u.child (back a s).childOf else u := by
  cases s
  · exact absurd rfl hs
  all_goals rfl

theorem across_leg_eq_some {a x : Addr} {s : Slot} (hs : s ≠ .base) :
    across numX numZ S a s = some x ↔ ∃ u, nbr numX numZ a s = some u ∧
      (S u = false ∧ x = u ∨ S u = true ∧ x = u.child (back a s).childOf) := by
  rw [across_leg a hs, Option.map_eq_some']
  refine exists_congr fun u => and_congr_right fun _ => ?_
  cases S u <;> simp [eq_comm]

theorem across_shape {a x : Addr} {s : Slot} (hg : a.InGrid numX numZ)
    (h : across numX numZ S a s = some x) :
    nbr numX numZ a s = some x ∨ s = .base ∧ x.steps.length + 1 = a.steps.length ∨
      nbr numX numZ a s = some x.parent ∧ x.steps.length = a.steps.length + 1 := by
  by_cases hs : s = .base
  · subst hs
    obtain ⟨u, hu, ⟨-, rfl⟩ | ⟨hni, rfl⟩⟩ := across_base_eq_some.mp h
    · exact .inl hu
    · have h0 := List.length_pos.mpr (not_inTree (nbr_inGrid a hg hu) hni).1
      have hl := nbr_steps_length a hu
      refine .inr (.inl ⟨rfl, ?_⟩)
      simp only [Addr.parent, List.length_tail]
      omega
  · obtain ⟨u, hu, ⟨-, rfl⟩ | ⟨-, rfl⟩⟩ := (across_leg_eq_some hs).mp h
    · exact .inl hu
    · exact .inr (.inr ⟨hu, by simp [nbr_steps_length a hu]⟩)

theorem across_slot_inj {a x : Addr} {s t : Slot} (hg : a.InGrid numX numZ)
    (hs : across numX numZ S a s = some x) (ht : across numX numZ S a t = some x) : s = t := by
  rcases across_shape hg hs with h₁ | ⟨rfl, h₁⟩ | ⟨h₁, l₁⟩ <;>
    rcases across_shape hg ht with h₂ | ⟨rfl, h₂⟩ | ⟨h₂, l₂⟩
  all_goals first
    | rfl
    | exact nbr_slot_inj h₁ h₂
    | (have e := nbr_steps_length a h₁; omega)
    | (have e := nbr_steps_length a h₂; omega)

theorem across_base_length {a x : Addr} (h : across numX numZ S a .base = some x) :
    x.steps.length ≤ a.steps.length := by
  obtain ⟨u, hu, ⟨-, rfl⟩ | ⟨-, rfl⟩⟩ := across_base_eq_some.mp h
  · exact (nbr_steps_length a hu).le
  · have := nbr_steps_length a hu
    simp only [Addr.parent, List.length_tail]
    omega

theorem across_ne_self {a : Addr} {s : Slot} (hg : a.InGrid numX numZ) :
    across numX numZ S a s ≠ some a := by
  intro h
  rcases across_shape hg h with h₁ | ⟨-, h₁⟩ | ⟨-, h₁⟩
  · exact nbr_ne_self a s h₁
  all_goals omega

theorem across_leaf (hS : Closed numX numZ S) {a x : Addr} {s : Slot}
    (ha : InTree numX numZ S a) (hla : S a = false) (h : across numX numZ S a s = some x) :
    InTree numX numZ S x ∧ S x = false := by
  by_cases hs : s = .base
  · subst hs
    obtain ⟨u, hu, ⟨hin, rfl⟩ | ⟨hni, rfl⟩⟩ := across_base_eq_some.mp h
    · refine ⟨hin, Bool.eq_false_iff.mpr fun hsu => ?_⟩
      have := hS.partner _ _ hsu (by simpa using nbr_back a ha.1 hu)
      simp [hla] at this
    · obtain ⟨hne, hpu⟩ := not_inTree (nbr_inGrid a ha.1 hu) hni
      refine ⟨?_, hpu⟩
      obtain h0 | ⟨A, b, rfl⟩ := a.eq_root_or_child
      · exact absurd (List.length_eq_zero.mp (by simpa [h0] using nbr_steps_length _ hu)) hne
      · obtain ⟨hA, hSA⟩ := (inTree_child A b).mp ha
        rw [nbr_child_base] at hu
        obtain ⟨v, hv, rfl⟩ := Option.map_eq_some'.mp hu
        exact hS.inTree_nbr_leg (hS.inTree A hSA) (Slot.leg_ne_base b) hv
  · obtain ⟨u, hu, ⟨hsu, rfl⟩ | ⟨hsu, rfl⟩⟩ := (across_leg_eq_some hs).mp h
    · exact ⟨hS.inTree_nbr_leg ha hs hu, hsu⟩
    · refine ⟨(inTree_child _ _).mpr ⟨nbr_inGrid a ha.1 hu, hsu⟩,
        Bool.eq_false_iff.mpr fun hsx => ?_⟩
      have := hS.parent (hS.partner _ _ hsx (nbr_leg_child_base ha.1 hs hu))
      simp [hla] at this

/-- **Across every leaf's edge, the leaf there names it back.** -/
theorem across_reciprocal {x y : Addr} {s : Slot} (hx : InTree numX numZ S x)
    (hlx : S x = false) (h : across numX numZ S x s = some y) :
    ∃ t, across numX numZ S y t = some x := by
  by_cases hs : s = .base
  · subst hs
    obtain ⟨u, hu, ⟨-, rfl⟩ | ⟨hni, rfl⟩⟩ := across_base_eq_some.mp h
    · exact ⟨.base, across_base_eq_some.mpr ⟨x, by simpa using nbr_back x hx.1 hu, .inl ⟨hx, rfl⟩⟩⟩
    · obtain h0 | ⟨X, c, rfl⟩ := x.eq_root_or_child
      · exact absurd (List.length_eq_zero.mp (by simpa [h0] using nbr_steps_length _ hu))
          (not_inTree (nbr_inGrid x hx.1 hu) hni).1
      · obtain ⟨hX, hSX⟩ := (inTree_child X c).mp hx
        rw [nbr_child_base] at hu
        obtain ⟨v, hv, rfl⟩ := Option.map_eq_some'.mp hu
        refine ⟨back X (Slot.leg c), (across_leg_eq_some (back_ne_base X (Slot.leg_ne_base c))).mpr
          ⟨X, nbr_back X hX hv, .inr ⟨hSX, ?_⟩⟩⟩
        rw [Addr.parent_child, back_of_nbr hv, Slot.childOf_leg]
  · obtain ⟨u, hu, ⟨-, rfl⟩ | ⟨-, rfl⟩⟩ := (across_leg_eq_some hs).mp h
    · exact ⟨back x s, (across_leg_eq_some (back_ne_base x hs)).mpr
        ⟨x, nbr_back x hx.1 hu, .inl ⟨hlx, rfl⟩⟩⟩
    · exact ⟨.base, across_base_eq_some.mpr ⟨_, nbr_leg_child_base hx.1 hs hu,
        .inr ⟨by simp [hlx], rfl⟩⟩⟩

section Grow

variable {S' : Addr → Bool} (hle : ∀ z, S z = true → S' z = true)
include hle

theorem across_eq_of_not_split {x : Addr} {s : Slot}
    (h : ∀ z, S z = false → S' z = true → across numX numZ S x s ≠ some z) :
    across numX numZ S' x s = across numX numZ S x s := by
  by_cases hs : s = .base
  · subst hs
    simp only [across]
    cases hu : nbr numX numZ x .base with
    | none => rfl
    | some u =>
      simp only [Option.map_some', Option.some.injEq]
      by_cases hin : InTree numX numZ S u
      · rw [if_pos (hin.mono hle), if_pos hin]
      · rw [if_neg hin, if_neg]
        intro hin'
        obtain ⟨hne, hp⟩ := not_inTree hin'.1 hin
        exact h _ hp (hin'.2.resolve_left hne) (by simp [across, hu, hin])
  · rw [across_leg x hs, across_leg x hs]
    cases hu : nbr numX numZ x s with
    | none => rfl
    | some u =>
      cases hSu : S u
      · cases hS'u : S' u
        · simp [hSu, hS'u]
        · exact absurd (by rw [across_leg x hs, hu]; simp [hSu]) (h u hSu hS'u)
      · simp [hSu, hle u hSu]

end Grow

/-- **When a leaf `y` splits, the leaf `x` across its leg `t` finds `y`'s child along `t`
where it found `y`.** -/
theorem across_of_split_facing {S' : Addr → Bool} {x y : Addr} {t s : Slot}
    (hy : y.InGrid numX numZ) (hly : S y = false) (hy' : S' y = true) (ht : t ≠ .base)
    (hyx : across numX numZ S y t = some x) (hxs : across numX numZ S x s = some y) :
    across numX numZ S' x s = some (y.child t.childOf) := by
  obtain ⟨u, hu, ⟨-, rfl⟩ | ⟨-, rfl⟩⟩ := (across_leg_eq_some ht).mp hyx
  · have hb : across numX numZ S x (back y t) = some y :=
      (across_leg_eq_some (back_ne_base y ht)).mpr ⟨y, nbr_back y hy hu, .inl ⟨hly, rfl⟩⟩
    obtain rfl := across_slot_inj (nbr_inGrid y hy hu) hxs hb
    exact (across_leg_eq_some (back_ne_base y ht)).mpr
      ⟨y, nbr_back y hy hu, .inr ⟨hy', by rw [back_of_nbr hu]⟩⟩
  · have hn := nbr_leg_child_base hy ht hu
    have hb : across numX numZ S (u.child (back y t).childOf) .base = some y :=
      across_base_eq_some.mpr ⟨_, hn, .inr ⟨by simp [hly], rfl⟩⟩
    obtain rfl := across_slot_inj ((Addr.inGrid_child u _).mpr (nbr_inGrid y hy hu)) hxs hb
    exact across_base_eq_some.mpr ⟨_, hn, .inl ⟨(inTree_child _ _).mpr ⟨hy, hy'⟩, rfl⟩⟩

/-! ### The leaves across the children of a node that splits -/

section Children

variable {S' : Addr → Bool} (a : Addr) (b : Bool)

theorem across_child_base (hg : a.InGrid numX numZ)
    (hu : ∀ u, nbr numX numZ a (Slot.leg b) = some u → S' u = S u) :
    across numX numZ S' (a.child b) .base = across numX numZ S a (Slot.leg b) := by
  rw [across_leg a (Slot.leg_ne_base b)]
  simp only [across, nbr_child_base]
  cases h : nbr numX numZ a (Slot.leg b) with
  | none => rfl
  | some u =>
    simp only [Option.map_some', inTree_child, nbr_inGrid a hg h, true_and, hu u h]
    split_ifs <;> rfl

theorem across_child_sibling (h : S' (a.child !b) = false) :
    across numX numZ S' (a.child b) (Slot.leg b) = some (a.child !b) := by
  cases b <;> simp only [Bool.not_false, Bool.not_true] at h <;> simp [across, Slot.leg, h]

theorem across_child_outer (h : ∀ n, nbr numX numZ a .base = some n → S' (n.child !b) = false) :
    across numX numZ S' (a.child b) (Slot.leg !b) = (nbr numX numZ a .base).map (·.child !b) := by
  cases hn : nbr numX numZ a .base with
  | none => cases b <;> simp [across, Slot.leg, hn]
  | some n =>
    have hs := h n hn
    cases b <;> simp only [Bool.not_false, Bool.not_true] at hs <;> simp [across, Slot.leg, hn, hs]

end Children

/-! ### Splitting a diamond -/

@[simp] theorem addSplit_eq_true {a x : Addr} : addSplit S a x = true ↔ S x = true ∨ x = a := by
  simp [addSplit]

theorem le_addSplit (a : Addr) {x : Addr} (h : S x = true) : addSplit S a x = true :=
  addSplit_eq_true.mpr (.inl h)

theorem addSplit_of_ne {a x : Addr} (h : x ≠ a) : addSplit S a x = S x := by
  simp [addSplit, beq_eq_false_iff_ne.mpr h]

theorem inTree_addSplit {a x : Addr} : InTree numX numZ (addSplit S a) x ↔
    InTree numX numZ S x ∨ a.InGrid numX numZ ∧ ∃ b, x = a.child b := by
  constructor
  · rintro ⟨hg, h | h⟩
    · exact .inl ⟨hg, .inl h⟩
    rcases addSplit_eq_true.mp h with h | h
    · exact .inl ⟨hg, .inr h⟩
    obtain h0 | ⟨x', b, rfl⟩ := x.eq_root_or_child
    · exact .inl ⟨hg, .inl h0⟩
    · rw [Addr.parent_child] at h
      subst h
      exact .inr ⟨hg, b, rfl⟩
  · rintro (h | ⟨hg, b, rfl⟩)
    · exact h.mono fun _ => le_addSplit a
    · exact (inTree_child a b).mpr ⟨hg, by simp⟩

theorem splitDiamond_of_nbr {a n : Addr} (hn : nbr numX numZ a .base = some n) :
    splitDiamond numX numZ S a = addSplit (addSplit S a) n := by
  funext x
  simp only [splitDiamond, addSplit, hn, Bool.or_assoc]
  rcases eq_or_ne x n with rfl | h
  · simp
  · simp [beq_eq_false_iff_ne.mpr h, beq_eq_false_iff_ne.mpr h.symm]

theorem splitDiamond_of_none {a : Addr} (hn : nbr numX numZ a .base = none) :
    splitDiamond numX numZ S a = addSplit S a := by
  funext x
  simp [splitDiamond, addSplit, hn]

@[simp] theorem splitDiamond_eq_true {a x : Addr} : splitDiamond numX numZ S a x = true ↔
    S x = true ∨ x = a ∨ nbr numX numZ a .base = some x := by
  simp [splitDiamond, or_assoc]

theorem le_splitDiamond (a : Addr) {x : Addr} (h : S x = true) :
    splitDiamond numX numZ S a x = true := splitDiamond_eq_true.mpr (.inl h)

theorem Closed.splitDiamond (hS : Closed numX numZ S) {a : Addr} (ha : InTree numX numZ S a)
    (hn : ∀ n, nbr numX numZ a .base = some n → InTree numX numZ S n) :
    Closed numX numZ (splitDiamond numX numZ S a) where
  inTree x hx := by
    rcases splitDiamond_eq_true.mp hx with hx | rfl | hx
    · exact (hS.inTree x hx).mono fun _ => le_splitDiamond a
    · exact ha.mono fun _ => le_splitDiamond x
    · exact (hn x hx).mono fun _ => le_splitDiamond a
  partner x n hx hxn := by
    rcases splitDiamond_eq_true.mp hx with hx | rfl | hx
    · exact le_splitDiamond a (hS.partner _ _ hx hxn)
    · exact splitDiamond_eq_true.mpr (.inr (.inr hxn))
    · have := nbr_back a ha.1 hx
      rw [back_base, hxn, Option.some.injEq] at this
      exact splitDiamond_eq_true.mpr (.inr (.inl this))

theorem nbr_leg_of_diamond {a n y u : Addr} {t : Slot} (hn : nbr numX numZ a .base = some n)
    (hna : nbr numX numZ n .base = some a) (ht : t ≠ .base) (hy : y = a ∨ y = n)
    (h : nbr numX numZ y t = some u) : u ≠ a ∧ u ≠ n := by
  rcases hy with rfl | rfl <;> refine ⟨fun e => ?_, fun e => ?_⟩ <;> subst e
  · exact nbr_ne_self _ _ h
  · exact ht (nbr_slot_inj h hn)
  · exact ht (nbr_slot_inj h hna)
  · exact nbr_ne_self _ _ h

theorem Closed.diamond_child (hS : Closed numX numZ S) {a n z : Addr} (hla : S a = false)
    (hln : S n = false) (hlen : n.steps.length = a.steps.length) (hz : z = a ∨ z = n)
    (b : Bool) : addSplit (addSplit S a) n (z.child b) = false := by
  have hne : ∀ w, w = a ∨ w = n → z.child b ≠ w := by
    rintro w hw e
    have := congrArg (fun w : Addr => w.steps.length) e
    simp only [Addr.child_steps, List.length_cons] at this
    rcases hz with rfl | rfl <;> rcases hw with rfl | rfl <;> omega
  rw [addSplit_of_ne (hne n (.inr rfl)), addSplit_of_ne (hne a (.inl rfl))]
  rcases hz with rfl | rfl
  exacts [hS.child_false hla b, hS.child_false hln b]

theorem LeastSplit.refl {a : Addr} (h : S a = true) : LeastSplit numX numZ S a S :=
  ⟨fun _ => id, h, fun _ _ hT _ _ => hT _, fun _ h h' => absurd h (by simp [h'])⟩

end Forest

end SpringRoam
