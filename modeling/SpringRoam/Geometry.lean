import SpringRoam.Node
import Mathlib.Algebra.Order.Group.Abs
import Mathlib.Algebra.Order.Ring.Abs

/-!
# The geometry the walks share

Every recursion of `Patch.cpp` over a triangle tree passes a triangle `(left, right, apex)` and
hands its children `(apex, left, center)` and `(right, apex, center)`, with `center` the
hypotenuse midpoint `(left + right) >> 1`; two of them also pass the heap index `node`, with
`node << 1` and `(node << 1) + 1` for the children.

* `Tri.descend t π` — the triangle of the node at child path `π` below `t`;
* `heapIdx n π` — its heap index below a node of index `n`;
* `Tri.descend_shift` — the walks commute with a translation of the grid;
* `legs_descend` — below a root of side `2 ^ p` the triangle at depth `d ≤ 2p` is right
  isosceles with lattice corners, its legs axis-aligned of length `2 ^ (p - d/2)` at even depth
  and diagonal at odd depth; `spanMax_descend`, `span_gt_one_iff`, `span_ge_four_iff` read off
  how far its hypotenuse spans.
-/

namespace SpringRoam

attribute [ext] Int2

/-- A triangle as the walks pass it: the hypotenuse's ends `left` and `right`, and `apex`. -/
structure Tri where
  left : Int2
  right : Int2
  apex : Int2
deriving DecidableEq, Repr

namespace Tri

/-- `{(left.x + right.x) >> 1, (left.y + right.y) >> 1}`: the hypotenuse midpoint. -/
def center (t : Tri) : Int2 := ⟨(t.left.x + t.right.x) >>> 1, (t.left.y + t.right.y) >>> 1⟩

/-- The triangle of the left child (`false`) and of the right child (`true`). -/
def child (t : Tri) : Bool → Tri
  | false => ⟨t.apex, t.left, t.center⟩
  | true => ⟨t.right, t.apex, t.center⟩

/-- The triangle of the node at child path `π` below `t`, first step first. -/
def descend (t : Tri) : List Bool → Tri
  | [] => t
  | b :: π => (t.child b).descend π

/-- How far the hypotenuse spans along `x` and along `y`. -/
def spanX (t : Tri) : Int := |t.left.x - t.right.x|

/-- See `spanX`. -/
def spanY (t : Tri) : Int := |t.left.y - t.right.y|

/-- The triangle moved by `c`. -/
def shift (t : Tri) (c : Int2) : Tri :=
  ⟨⟨t.left.x + c.x, t.left.y + c.y⟩, ⟨t.right.x + c.x, t.right.y + c.y⟩,
    ⟨t.apex.x + c.x, t.apex.y + c.y⟩⟩

@[simp] theorem shift_zero (t : Tri) : t.shift ⟨0, 0⟩ = t := by
  simp [shift]

@[simp] theorem descend_nil (t : Tri) : t.descend [] = t := rfl

@[simp] theorem descend_cons (t : Tri) (b : Bool) (π : List Bool) :
    t.descend (b :: π) = (t.child b).descend π := rfl

theorem descend_append (t : Tri) (π ρ : List Bool) :
    t.descend (π ++ ρ) = (t.descend π).descend ρ := by
  induction π generalizing t with
  | nil => rfl
  | cons b π ih => exact ih _

theorem descend_concat (t : Tri) (π : List Bool) (b : Bool) :
    t.descend (π ++ [b]) = (t.descend π).child b := by
  rw [descend_append]; rfl

theorem center_shift (t : Tri) (c : Int2) :
    (t.shift c).center = ⟨t.center.x + c.x, t.center.y + c.y⟩ := by
  simp only [center, shift, Int.shiftRight_one, Int2.mk.injEq]
  omega

theorem child_shift (t : Tri) (c : Int2) (b : Bool) :
    (t.shift c).child b = (t.child b).shift c := by
  cases b <;> simp only [child, center_shift] <;> rfl

theorem descend_shift (t : Tri) (c : Int2) (π : List Bool) :
    (t.shift c).descend π = (t.descend π).shift c := by
  induction π generalizing t with
  | nil => rfl
  | cons b π ih => simp [child_shift, ih]

/-! ### Right isosceles triangles -/

/-- `t` is right isosceles with leg `a` from its apex to `left`; the leg to `right` is `a`
turned a quarter clockwise, `(a.y, -a.x)`. -/
def Legs (t : Tri) (a : Int2) : Prop :=
  t.left = ⟨t.apex.x + a.x, t.apex.y + a.y⟩ ∧ t.right = ⟨t.apex.x + a.y, t.apex.y - a.x⟩

/-- The leg of a child's triangle. -/
def legChild (a : Int2) : Bool → Int2
  | false => ⟨-(a.x + a.y) / 2, (a.x - a.y) / 2⟩
  | true => ⟨(a.y - a.x) / 2, -(a.x + a.y) / 2⟩

theorem Legs.child {t : Tri} {a : Int2} (h : t.Legs a) (he : (a.x + a.y) % 2 = 0) (b : Bool) :
    (t.child b).Legs (legChild a b) := by
  obtain ⟨hl, hr⟩ := h
  cases b <;> refine ⟨?_, ?_⟩ <;> ext <;>
    simp only [Tri.child, center, legChild, hl, hr, Int.shiftRight_one] <;> omega

theorem Legs.center_exact {t : Tri} {a : Int2} (h : t.Legs a) (he : (a.x + a.y) % 2 = 0) :
    2 * t.center.x = t.left.x + t.right.x ∧ 2 * t.center.y = t.left.y + t.right.y := by
  obtain ⟨hl, hr⟩ := h
  simp only [center, hl, hr, Int.shiftRight_one]
  omega

theorem Legs.spanX {t : Tri} {a : Int2} (h : t.Legs a) : t.spanX = |a.x - a.y| := by
  rw [Tri.spanX, h.1, h.2]; dsimp only; congr 1; omega

theorem Legs.spanY {t : Tri} {a : Int2} (h : t.Legs a) : t.spanY = |a.x + a.y| := by
  rw [Tri.spanY, h.1, h.2]; dsimp only; congr 1; omega

/-- An axis-aligned leg of length `s`. -/
def AxisLeg (a : Int2) (s : Int) : Prop :=
  (a.x = 0 ∧ (a.y = s ∨ a.y = -s)) ∨ (a.y = 0 ∧ (a.x = s ∨ a.x = -s))

/-- A diagonal leg reaching `s` along both axes. -/
def DiagLeg (a : Int2) (s : Int) : Prop := (a.x = s ∨ a.x = -s) ∧ (a.y = s ∨ a.y = -s)

theorem AxisLeg.child {a : Int2} {s : Int} (h : AxisLeg a (2 * s)) (b : Bool) :
    DiagLeg (legChild a b) s := by
  unfold DiagLeg legChild
  rcases h with ⟨hx, hy | hy⟩ | ⟨hy, hx | hx⟩ <;> cases b <;> simp only [hx, hy] <;> omega

theorem DiagLeg.child {a : Int2} {s : Int} (h : DiagLeg a s) (b : Bool) :
    AxisLeg (legChild a b) s := by
  unfold AxisLeg legChild
  obtain ⟨hx | hx, hy | hy⟩ := h <;> cases b <;> simp only [hx, hy] <;> omega

end Tri

/-! ### The roots, and the triangles below them -/

/-- The roots as `GenerateIndices` and `ComputeVariance` pass them, in patch coordinates:
`baseLeft` (`false`) and `baseRight` (`true`) of a patch of side `PS`. -/
def rootTri (PS : Int) : Bool → Tri
  | false => ⟨⟨0, PS⟩, ⟨PS, 0⟩, ⟨0, 0⟩⟩
  | true => ⟨⟨PS, 0⟩, ⟨0, PS⟩, ⟨PS, PS⟩⟩

open Tri

/-- The shape of the leg at depth `d` below a root of side `2 ^ p`. -/
def LegShape (p d : Nat) (a : Int2) : Prop :=
  if d % 2 = 0 then AxisLeg a (2 ^ (p - d / 2)) else DiagLeg a (2 ^ (p - d / 2 - 1))

theorem legShape_step {p d : Nat} {a : Int2} (h : LegShape p d a) (hd : d < 2 * p) (b : Bool) :
    LegShape p (d + 1) (legChild a b) ∧ (a.x + a.y) % 2 = 0 := by
  unfold LegShape at h ⊢
  by_cases hd2 : d % 2 = 0
  · have he : (2 : Int) ^ (p - d / 2) = 2 * 2 ^ (p - (d + 1) / 2 - 1) := by
      rw [← pow_succ']; congr 1; omega
    rw [if_pos hd2, he] at h
    refine ⟨by rw [if_neg (by omega)]; exact h.child b, ?_⟩
    rcases h with ⟨hx, hy | hy⟩ | ⟨hy, hx | hx⟩ <;> simp only [hx, hy] <;> omega
  · rw [if_neg hd2] at h
    have he : (d + 1) / 2 = d / 2 + 1 := by omega
    refine ⟨by rw [if_pos (by omega), he, Nat.sub_add_eq]; exact h.child b, ?_⟩
    obtain ⟨hx | hx, hy | hy⟩ := h <;> simp only [hx, hy] <;> omega

theorem legs_descend_of {p : Nat} (π : List Bool) :
    ∀ (t : Tri) (a : Int2) (d : Nat), t.Legs a → LegShape p d a → d + π.length ≤ 2 * p →
      ∃ a', (t.descend π).Legs a' ∧ LegShape p (d + π.length) a' := by
  induction π with
  | nil => exact fun t a d h hs _ => ⟨a, h, hs⟩
  | cons b π ih =>
    intro t a d h hs hd
    obtain ⟨hs', he⟩ := legShape_step hs (by simp at hd; omega) b
    obtain ⟨a', h', hs''⟩ := ih _ _ _ (h.child he b) hs' (by simp at hd; omega)
    exact ⟨a', h', by simpa [Nat.add_assoc, Nat.add_comm 1] using hs''⟩

theorem rootTri_legs (p : Nat) (r : Bool) :
    ∃ a, (rootTri (2 ^ p) r).Legs a ∧ LegShape p 0 a := by
  cases r
  · exact ⟨⟨0, 2 ^ p⟩, by simp [Legs, rootTri], by simp [LegShape, AxisLeg]⟩
  · exact ⟨⟨0, -2 ^ p⟩, by simp [Legs, rootTri], by simp [LegShape, AxisLeg]⟩

/-- **Below a root of side `2 ^ p`, every triangle down to depth `2p` is right isosceles on
the lattice**, with the leg shape of its depth. -/
theorem legs_descend (p : Nat) (r : Bool) (c : Int2) (π : List Bool)
    (hπ : π.length ≤ 2 * p) :
    ∃ a, (((rootTri (2 ^ p) r).shift c).descend π).Legs a ∧ LegShape p π.length a := by
  obtain ⟨a, h, hs⟩ := rootTri_legs p r
  obtain ⟨a', h', hs'⟩ := legs_descend_of π _ a 0 h hs (by omega)
  refine ⟨a', ?_, by simpa using hs'⟩
  rw [descend_shift]
  obtain ⟨hl, hr⟩ := h'
  exact ⟨by simp [shift, hl]; omega, by simp [shift, hr]; omega⟩

theorem spans_of_legShape {p d : Nat} {t : Tri} {a : Int2} (h : t.Legs a)
    (hs : LegShape p d a) (hd : d < 2 * p ∨ d % 2 = 0) :
    max t.spanX t.spanY = 2 ^ (p - d / 2) ∧ (d % 2 = 0 → t.spanX = t.spanY) ∧
      (d % 2 = 1 → min t.spanX t.spanY = 0) := by
  rw [h.spanX, h.spanY]
  unfold LegShape at hs
  simp only [abs_eq_max_neg]
  split at hs
  · have hnn : (0 : Int) ≤ 2 ^ (p - d / 2) := pow_nonneg zero_le_two _
    generalize (2 : Int) ^ (p - d / 2) = s at *
    unfold AxisLeg at hs
    omega
  · have he : (2 : Int) ^ (p - d / 2) = 2 * 2 ^ (p - d / 2 - 1) := by
      rw [← pow_succ']; congr 1; omega
    have hnn : (0 : Int) ≤ 2 ^ (p - d / 2 - 1) := pow_nonneg zero_le_two _
    rw [he]
    generalize (2 : Int) ^ (p - d / 2 - 1) = s at *
    unfold DiagLeg at hs
    omega

theorem two_pow_gt_one_iff (k : Nat) : (1 : Int) < 2 ^ k ↔ 0 < k := by
  rcases k with _ | k
  · simp
  · simp only [Nat.succ_pos, iff_true, pow_succ]
    have := pow_pos (two_pos : (0 : Int) < 2) k
    omega

theorem four_le_two_pow_iff (k : Nat) : (4 : Int) ≤ 2 ^ k ↔ 2 ≤ k := by
  rcases k with _ | _ | k
  · simp
  · simp
  · simp only [pow_succ, show 2 ≤ k + 1 + 1 by omega, iff_true]
    have := pow_pos (two_pos : (0 : Int) < 2) k
    omega

section Spans

variable (p : Nat) (r : Bool) (c : Int2) {π : List Bool}

/-- **The spans of the triangle at depth `d ≤ 2p` below a root of side `2 ^ p`**: the larger
one is `2 ^ (p - d/2)`. -/
theorem spanMax_descend (hπ : π.length ≤ 2 * p) :
    max (((rootTri (2 ^ p) r).shift c).descend π).spanX
      (((rootTri (2 ^ p) r).shift c).descend π).spanY = 2 ^ (p - π.length / 2) := by
  obtain ⟨a, h, hs⟩ := legs_descend p r c π hπ
  exact (spans_of_legShape h hs (by omega)).1

theorem span_gt_one_iff (hπ : π.length ≤ 2 * p) :
    (1 < (((rootTri (2 ^ p) r).shift c).descend π).spanX ∨
      1 < (((rootTri (2 ^ p) r).shift c).descend π).spanY) ↔ π.length < 2 * p := by
  rw [← lt_max_iff, spanMax_descend p r c hπ, two_pow_gt_one_iff]
  omega

theorem span_ge_four_iff (hπ : π.length ≤ 2 * p) :
    (4 ≤ (((rootTri (2 ^ p) r).shift c).descend π).spanX ∨
      4 ≤ (((rootTri (2 ^ p) r).shift c).descend π).spanY) ↔ π.length + 3 ≤ 2 * p := by
  rw [← le_max_iff, spanMax_descend p r c hπ, four_le_two_pow_iff]
  omega

end Spans

/-! ### Heap indices -/

/-- The heap index of the node at path `π` below a node of index `n`: a left child has index
`node << 1`, a right child `(node << 1) + 1`. -/
def heapIdx (n : Nat) : List Bool → Nat
  | [] => n
  | b :: π => heapIdx (if b then (n <<< 1) + 1 else n <<< 1) π

theorem heapIdx_bounds (π : List Bool) (n : Nat) :
    2 ^ π.length * n ≤ heapIdx n π ∧ heapIdx n π < 2 ^ π.length * (n + 1) := by
  induction π generalizing n with
  | nil => simp [heapIdx]
  | cons b π ih =>
    have e : (if b then (n <<< 1) + 1 else n <<< 1) = 2 * n + b.toNat := by
      cases b <;> simp [Nat.shiftLeft_eq, Nat.mul_comm]
    simp only [heapIdx, e, List.length_cons, pow_succ, Nat.mul_assoc]
    obtain ⟨h1, h2⟩ := ih (2 * n + b.toNat)
    have hb : b.toNat ≤ 1 := Bool.toNat_le b
    exact ⟨le_trans (Nat.mul_le_mul_left _ (by omega)) h1,
      lt_of_lt_of_le h2 (Nat.mul_le_mul_left _ (by omega))⟩

theorem heapIdx_cons (n : Nat) (b : Bool) (π : List Bool) :
    heapIdx n (b :: π) = heapIdx (2 * n + b.toNat) π := by
  cases b <;> simp [heapIdx, Nat.shiftLeft_eq, Nat.mul_comm]

theorem heapIdx_append_singleton (n : Nat) (π : List Bool) (b : Bool) :
    heapIdx n (π ++ [b]) = 2 * heapIdx n π + b.toNat := by
  induction π generalizing n with
  | nil => simp only [List.nil_append, heapIdx_cons]; rfl
  | cons c π ih => simp [heapIdx_cons, ih]

theorem lt_heapIdx_cons {n : Nat} (hn : 1 ≤ n) (b : Bool) (π : List Bool) :
    n < heapIdx n (b :: π) := by
  rw [heapIdx_cons]
  have h := (heapIdx_bounds π (2 * n + b.toNat)).1
  have : 1 ≤ 2 ^ π.length := Nat.one_le_two_pow
  have : 2 * n + b.toNat ≤ 2 ^ π.length * (2 * n + b.toNat) := Nat.le_mul_of_pos_left _ this
  omega

theorem heapIdx_left_ne_right {n : Nat} (hn : 1 ≤ n) (ρ ρ' : List Bool) :
    heapIdx (2 * n) ρ ≠ heapIdx (2 * n + 1) ρ' := by
  obtain ⟨h1, h2⟩ := heapIdx_bounds ρ (2 * n)
  obtain ⟨h3, h4⟩ := heapIdx_bounds ρ' (2 * n + 1)
  rcases le_or_lt ρ.length ρ'.length with h | h
  · have := Nat.mul_le_mul_right (2 * n + 1) (Nat.pow_le_pow_right two_pos h)
    omega
  · have hp : 2 ^ ρ'.length * 2 ≤ 2 ^ ρ.length := by
      rw [← pow_succ]; exact Nat.pow_le_pow_right two_pos h
    have := Nat.mul_le_mul_right (2 * n) hp
    have : 2 ^ ρ'.length * (2 * n + 1 + 1) ≤ 2 ^ ρ'.length * 2 * (2 * n) := by
      rw [Nat.mul_assoc]; exact Nat.mul_le_mul_left _ (by omega)
    omega

end SpringRoam
