import Mathlib.Logic.Function.Basic
import Mathlib.Data.Int.Bitwise

/-!
# Triangle nodes, node pools and the mesh heap

The data model of `Patch.cpp`:

* `TriPtr` — what a `TriTreeNode*` can point at: a patch's `baseLeft`/`baseRight` root, or a
  slot of a worker thread's node pool;
* `TriTreeNode` — the five links of a node, `none` standing for `nullptr`;
* `Mesh` — every node a pointer can reach, with the node pool of every worker thread, on which
  `Split` and `Tessellate` run;
* `Mesh.allocate` and `Mesh.resetPool` — `CTriNodePool::Allocate` and `CTriNodePool::Reset`
  on the slots of one pool.

Each write to the heap has its read-back lemmas here, so that later proofs never unfold `set`.
-/

namespace SpringRoam

/-- `int2`: a point of the height grid. -/
structure Int2 where
  x : Int
  y : Int
deriving DecidableEq, Repr

theorem Int.shiftRight_one (a : Int) : a >>> 1 = a / 2 := by
  rcases a with n | n
  · show Int.ofNat (n >>> 1) = _
    simp [Nat.shiftRight_eq_div_pow]
  · show Int.negSucc (n >>> 1) = _
    simp only [Nat.shiftRight_eq_div_pow, pow_one, Int.negSucc_eq]; omega

/-- Where a `TriTreeNode*` points: the root `baseLeft` or `baseRight` of the patch at grid
position `(px, pz)`, or slot `idx` of the pool of worker thread `thr`. -/
inductive TriPtr
  | baseLeft (px pz : Nat)
  | baseRight (px pz : Nat)
  | pool (thr idx : Nat)
deriving DecidableEq, Repr

/-- The root `baseLeft` (`false`) or `baseRight` (`true`) of the patch at `(px, pz)`. -/
def TriPtr.root : Bool → Nat → Nat → TriPtr
  | false, px, pz => .baseLeft px pz
  | true, px, pz => .baseRight px pz

/-- `TriTreeNode`: two child links and three neighbor links. The defaults are the state the
constructor and the pool's `memset` leave a node in. -/
structure TriTreeNode where
  LeftChild : Option TriPtr := none
  RightChild : Option TriPtr := none
  BaseNeighbor : Option TriPtr := none
  LeftNeighbor : Option TriPtr := none
  RightNeighbor : Option TriPtr := none
deriving DecidableEq, Repr

instance : Inhabited TriTreeNode := ⟨{}⟩

/-- Modelled from the spec: `TriTreeNode::IsLeaf` (declared in `Patch.h`, outside the
excerpt): a node is a leaf iff both child references are absent. -/
def TriTreeNode.IsLeaf (n : TriTreeNode) : Bool := n.LeftChild.isNone && n.RightChild.isNone

/-- The three neighbor slots of a node. -/
inductive Slot
  | base
  | left
  | right
deriving DecidableEq, Repr

/-- The neighbor link in slot `s`. -/
def TriTreeNode.get (n : TriTreeNode) : Slot → Option TriPtr
  | .base => n.BaseNeighbor
  | .left => n.LeftNeighbor
  | .right => n.RightNeighbor

/-- Write the neighbor link in slot `s`. -/
def TriTreeNode.put (n : TriTreeNode) : Slot → Option TriPtr → TriTreeNode
  | .base, p => { n with BaseNeighbor := p }
  | .left, p => { n with LeftNeighbor := p }
  | .right, p => { n with RightNeighbor := p }

@[simp] theorem TriTreeNode.get_put_self (n : TriTreeNode) (s : Slot) (p : Option TriPtr) :
    (n.put s p).get s = p := by cases s <;> rfl

@[simp] theorem TriTreeNode.get_put_ne (n : TriTreeNode) {s t : Slot} (h : s ≠ t)
    (p : Option TriPtr) : (n.put s p).get t = n.get t := by
  cases s <;> cases t <;> first | rfl | exact absurd rfl h

theorem TriTreeNode.ext_get {n n' : TriTreeNode} (hl : n.LeftChild = n'.LeftChild)
    (hr : n.RightChild = n'.RightChild) (h : ∀ s, n.get s = n'.get s) : n = n' := by
  have hb := h .base; have hl' := h .left; have hr' := h .right
  cases n; cases n'; simp_all [get]

@[simp] theorem TriTreeNode.put_LeftChild (n : TriTreeNode) (s : Slot) (p : Option TriPtr) :
    (n.put s p).LeftChild = n.LeftChild := by cases s <;> rfl

@[simp] theorem TriTreeNode.put_RightChild (n : TriTreeNode) (s : Slot) (p : Option TriPtr) :
    (n.put s p).RightChild = n.RightChild := by cases s <;> rfl

/-- `CTriNodePool` without its node vector: the vector's length and the bump cursor. The
nodes are the heap's slots `TriPtr.pool thr i`. -/
structure CTriNodePool where
  size : Nat
  nextTriNodeIdx : Nat := 0
deriving DecidableEq, Repr

/-- Modelled from the spec: `CTriNodePool::OutOfNodes` (declared in `Patch.h`): the cursor
has reached the capacity. -/
def CTriNodePool.OutOfNodes (p : CTriNodePool) : Bool := p.size ≤ p.nextTriNodeIdx

/-- The cursor after one pair is handed out (`nextTriNodeIdx++` twice). -/
def CTriNodePool.bump (p : CTriNodePool) : CTriNodePool :=
  { p with nextTriNodeIdx := p.nextTriNodeIdx + 2 }

/-- **`CTriNodePool::Allocate`** on the cursor: the indices of the two slots handed out, or
`none` (both outputs `nullptr`) when the pool is out of nodes. -/
def CTriNodePool.Allocate (p : CTriNodePool) : Option (Nat × Nat) × CTriNodePool :=
  if p.OutOfNodes then (none, p) else (some (p.nextTriNodeIdx, p.nextTriNodeIdx + 1), p.bump)

/-- **`CTriNodePool::Reset`** on the cursor; the `memset` of the slots below it is
`Mesh.resetPool`'s. -/
def CTriNodePool.Reset (p : CTriNodePool) : CTriNodePool := { p with nextTriNodeIdx := 0 }

/-- The state `Split` and `Tessellate` act on: every node a pointer can reach, and the pool
of every worker thread of the pass. `failedAllocs` and `illegalLinks` are ghost counters the
code does not keep: the `Allocate` calls that failed, and the relinks that fell through to an
"illegal neighbor" branch. -/
structure Mesh where
  node : TriPtr → TriTreeNode
  pools : Nat → CTriNodePool
  failedAllocs : Nat := 0
  illegalLinks : Nat := 0

namespace Mesh

/-! ### Writes to the heap -/

/-- Overwrite the node at `p`. -/
def set (m : Mesh) (p : TriPtr) (n : TriTreeNode) : Mesh :=
  { m with node := Function.update m.node p n }

/-- `p->BaseNeighbor = q` and its two siblings. -/
def setSlot (m : Mesh) (p : TriPtr) (s : Slot) (q : Option TriPtr) : Mesh :=
  m.set p ((m.node p).put s q)

/-- `p->LeftChild = l; p->RightChild = r`. -/
def setChildren (m : Mesh) (p : TriPtr) (l r : Option TriPtr) : Mesh :=
  m.set p { m.node p with LeftChild := l, RightChild := r }

section Frame

variable (m : Mesh) (p q : TriPtr) (n : TriTreeNode) (s : Slot) (o l r : Option TriPtr)

@[simp] theorem set_node : (m.set p n).node q = if q = p then n else m.node q := by
  by_cases h : q = p
  · subst h; simp [set]
  · simp [set, h, Function.update_noteq]

@[simp] theorem set_pools : (m.set p n).pools = m.pools := rfl
@[simp] theorem set_failedAllocs : (m.set p n).failedAllocs = m.failedAllocs := rfl
@[simp] theorem set_illegalLinks : (m.set p n).illegalLinks = m.illegalLinks := rfl

@[simp] theorem setSlot_node :
    (m.setSlot p s o).node q = if q = p then (m.node p).put s o else m.node q := by
  simp [setSlot]

@[simp] theorem setSlot_pools : (m.setSlot p s o).pools = m.pools := rfl
@[simp] theorem setSlot_failedAllocs : (m.setSlot p s o).failedAllocs = m.failedAllocs := rfl
@[simp] theorem setSlot_illegalLinks : (m.setSlot p s o).illegalLinks = m.illegalLinks := rfl

@[simp] theorem setChildren_node : (m.setChildren p l r).node q =
    if q = p then { m.node p with LeftChild := l, RightChild := r } else m.node q := by
  simp [setChildren]

@[simp] theorem setChildren_pools : (m.setChildren p l r).pools = m.pools := rfl
@[simp] theorem setChildren_failedAllocs :
    (m.setChildren p l r).failedAllocs = m.failedAllocs := rfl
@[simp] theorem setChildren_illegalLinks :
    (m.setChildren p l r).illegalLinks = m.illegalLinks := rfl

end Frame

/-! ### The node pools -/

/-- `CTriNodePool::Allocate` on the pool of thread `thr`: two fresh slots from the cursor, or
`none` (both outputs `nullptr`) when the pool is out of nodes. -/
def allocate (m : Mesh) (thr : Nat) : Option (TriPtr × TriPtr) × Mesh :=
  match (m.pools thr).Allocate with
  | (none, _) => (none, { m with failedAllocs := m.failedAllocs + 1 })
  | (some (i, j), p) =>
    (some (.pool thr i, .pool thr j), { m with pools := Function.update m.pools thr p })

/-- `CTriNodePool::Reset` on the pool of thread `thr`: the slots below the cursor are cleared
(the `memset`) and the cursor rewinds to zero. -/
def resetPool (m : Mesh) (thr : Nat) : Mesh :=
  { m with
    node := fun q => match q with
      | .pool t i => if t = thr ∧ i < (m.pools thr).nextTriNodeIdx then {} else m.node q
      | q => m.node q
    pools := Function.update m.pools thr (m.pools thr).Reset }

theorem allocate_none {m : Mesh} {thr : Nat} {m' : Mesh}
    (h : m.allocate thr = (none, m')) :
    (m.pools thr).OutOfNodes ∧ m' = { m with failedAllocs := m.failedAllocs + 1 } := by
  by_cases hp : (m.pools thr).OutOfNodes <;> simp [allocate, CTriNodePool.Allocate, hp] at h
  exact ⟨hp, h.symm⟩

theorem allocate_some {m : Mesh} {thr : Nat} {lc rc : TriPtr} {m' : Mesh}
    (h : m.allocate thr = (some (lc, rc), m')) :
    (m.pools thr).OutOfNodes = false ∧ lc = .pool thr (m.pools thr).nextTriNodeIdx ∧
      rc = .pool thr ((m.pools thr).nextTriNodeIdx + 1) ∧
      m' = { m with pools := Function.update m.pools thr (m.pools thr).bump } := by
  by_cases hp : (m.pools thr).OutOfNodes <;> simp [allocate, CTriNodePool.Allocate, hp] at h
  obtain ⟨⟨rfl, rfl⟩, rfl⟩ := h
  exact ⟨by simpa using hp, rfl, rfl, rfl⟩

end Mesh

end SpringRoam
