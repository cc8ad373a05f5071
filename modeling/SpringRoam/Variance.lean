import SpringRoam.Geometry
import SpringRoam.Tessellate

/-!
# `Patch::ComputeVariance`

For each half of a patch, `RecursComputeVariance` walks the triangle tree down to 4×4 blocks
and stores, at each node's heap index below `2 ^ VARIANCE_DEPTH`, the largest height error over
the computed subtree, floored at `0.001`. The corner heights travel down the recursion on the
stack instead of being read again.

The specification reads the heights at each triangle's own corners: `localError` is the error of
one triangle, `subtreeError` its largest value over the computed subtree (`Subdivides` says
where the computation goes below a triangle).
-/

namespace SpringRoam

section Variance

variable {F : Type} [LinearOrderedField F] (PATCH_SIZE VARIANCE_DEPTH : Nat)

/-- **`Patch::GetHeight`**: the height stored with the grid point `pos` in `vertices`. -/
def GetHeight (vertices : Nat → F) (pos : Int2) : F :=
  vertices ((pos.y * (PATCH_SIZE + 1) + pos.x) * 3 + 1).toNat

/-- **`Patch::RecursComputeVariance`** writing into `currentVariance`: the array afterwards and
the node's variance. `hgts` holds the heights at `left`, `rght` and `apex`. `none` means the
recursion has not returned within `fuel` nested calls. -/
def RecursComputeVariance (vertices : Nat → F) :
    Nat → (Nat → F) → Int2 → Int2 → Int2 → Float3 F → Nat → Option ((Nat → F) × F)
  | 0, _, _, _, _, _, _ => none
  | fuel + 1, currentVariance, left, rght, apex, hgts, node => do
    -- first compute the XZ coordinates of 'M' (hypotenuse middle)
    let mpos : Int2 := ⟨(left.x + rght.x) >>> 1, (left.y + rght.y) >>> 1⟩
    -- get the height value at M
    let mhgt := GetHeight PATCH_SIZE vertices mpos
    -- variance of this triangle is the actual height at its hypotenuse midpoint minus the
    -- interpolated height
    let myVariance := |mhgt - (hgts.x + hgts.y) * (1 / 2)|
    -- shore lines get more variance for higher accuracy
    let myVariance :=
      if hgts.x * hgts.y < 0 ∨ hgts.x * mhgt < 0 ∨ hgts.y * mhgt < 0 then
        max (myVariance * (3 / 2)) 20
      else myVariance
    -- save some CPU, only calculate variance down to a 4x4 block
    let (currentVariance, myVariance) ←
      if 4 ≤ |left.x - rght.x| ∨ 4 ≤ |left.y - rght.y| then do
        let hgts1 : Float3 F := ⟨hgts.z, hgts.x, mhgt⟩
        let hgts2 : Float3 F := ⟨hgts.y, hgts.z, mhgt⟩
        let (cv, child1Variance) ← RecursComputeVariance vertices fuel currentVariance
          apex left mpos hgts1 (node <<< 1)
        let (cv, child2Variance) ← RecursComputeVariance vertices fuel cv
          rght apex mpos hgts2 ((node <<< 1) + 1)
        -- final variance for this node is the max of its own variance and that of its children
        pure (cv, max (max myVariance child1Variance) child2Variance)
      else pure (currentVariance, myVariance)
    -- NOTE: Variance is never zero
    let myVariance := max (1 / 1000) myVariance
    -- store the final variance for this node
    let currentVariance :=
      if node < 1 <<< VARIANCE_DEPTH then Function.update currentVariance node myVariance
      else currentVariance
    pure (currentVariance, myVariance)

/-- **`Patch::ComputeVariance`**: both halves' variances, and the dirty flag cleared. -/
def ComputeVariance (fuel : Nat) (p : Patch F) : Option (Patch F) := do
  let PS : Int := PATCH_SIZE
  let h := GetHeight PATCH_SIZE p.vertices
  let (varianceLeft, _) ← RecursComputeVariance PATCH_SIZE VARIANCE_DEPTH p.vertices fuel
    p.varianceLeft ⟨0, PS⟩ ⟨PS, 0⟩ ⟨0, 0⟩ ⟨h ⟨0, PS⟩, h ⟨PS, 0⟩, h ⟨0, 0⟩⟩ 1
  let (varianceRight, _) ← RecursComputeVariance PATCH_SIZE VARIANCE_DEPTH p.vertices fuel
    p.varianceRight ⟨PS, 0⟩ ⟨0, PS⟩ ⟨PS, PS⟩ ⟨h ⟨PS, 0⟩, h ⟨0, PS⟩, h ⟨PS, PS⟩⟩ 1
  pure { p with varianceLeft := varianceLeft, varianceRight := varianceRight, isDirty := false }

/-- The variance array of a patch's half: `varianceLeft` for `baseLeft` (`false`),
`varianceRight` for `baseRight` (`true`), as `currentVariance` points at them. -/
def Patch.variance (p : Patch F) : Bool → Nat → F
  | false => p.varianceLeft
  | true => p.varianceRight

/-! ### The specification -/

variable {PATCH_SIZE}

/-- The heights at a triangle's corners, in the order the recursion keeps them on the stack. -/
def cornerHeights (h : Int2 → F) (t : Tri) : Float3 F := ⟨h t.left, h t.right, h t.apex⟩

/-- The error of the triangle `t` alone for the heights `h`: how far the height at the
hypotenuse midpoint is from the mean of the ends', raised to `max(1.5·error, 20)` when the
heights change sign along the hypotenuse (a shore line). -/
def localError (h : Int2 → F) (t : Tri) : F :=
  let e := |h t.center - (h t.left + h t.right) * (1 / 2)|
  if h t.left * h t.right < 0 ∨ h t.left * h t.center < 0 ∨ h t.right * h t.center < 0 then
    max (e * (3 / 2)) 20
  else e

/-- The computation goes below `t`: its hypotenuse spans at least 4 along some axis. -/
def Subdivides (t : Tri) : Prop := 4 ≤ t.spanX ∨ 4 ≤ t.spanY

instance (t : Tri) : Decidable (Subdivides t) := inferInstanceAs (Decidable (_ ∨ _))

/-- The largest local error over the computed subtree of `t`, followed at most `n` levels. -/
def subtreeError (h : Int2 → F) : Nat → Tri → F
  | 0, t => localError h t
  | n + 1, t =>
    if Subdivides t then
      max (max (localError h t) (subtreeError h n (t.child false))) (subtreeError h n (t.child true))
    else localError h t

/-- The computed subtree of `t` is at most `n` levels deep. -/
def Bounded : Nat → Tri → Prop
  | 0, t => ¬ Subdivides t
  | n + 1, t => Subdivides t → Bounded n (t.child false) ∧ Bounded n (t.child true)

/-- `ρ` leads to a node of the computed subtree of `t`. -/
def InSubtree : Tri → List Bool → Prop
  | _, [] => True
  | t, b :: ρ => Subdivides t ∧ InSubtree (t.child b) ρ

theorem max_floor_absorb (c L A B : F) :
    max c (max (max L (max c A)) (max c B)) = max c (max (max L A) B) := by
  rw [max_left_comm L c A, max_max_max_comm, max_self, ← max_assoc, max_self]

theorem subtreeError_of_not_subdivides (h : Int2 → F) {t : Tri} (ht : ¬ Subdivides t) :
    ∀ k, subtreeError h k t = localError h t
  | 0 => rfl
  | _ + 1 => if_neg ht

theorem Bounded.children {k : Nat} {t : Tri} (hb : Bounded k t) (ht : Subdivides t) :
    ∃ m, k = m + 1 ∧ Bounded m (t.child false) ∧ Bounded m (t.child true) := by
  cases k with
  | zero => exact absurd ht hb
  | succ m => exact ⟨m, rfl, hb ht⟩

variable (PATCH_SIZE)

theorem recursComputeVariance_succ (vertices : Nat → F) (fuel : Nat) (cv : Nat → F) (t : Tri)
    (node : Nat) :
    RecursComputeVariance PATCH_SIZE VARIANCE_DEPTH vertices (fuel + 1) cv t.left t.right t.apex
      (cornerHeights (GetHeight PATCH_SIZE vertices) t) node =
    (do
      let (cv, v) ←
        if Subdivides t then do
          let (cv, v₁) ← RecursComputeVariance PATCH_SIZE VARIANCE_DEPTH vertices fuel cv
            (t.child false).left (t.child false).right (t.child false).apex
            (cornerHeights (GetHeight PATCH_SIZE vertices) (t.child false)) (2 * node)
          let (cv, v₂) ← RecursComputeVariance PATCH_SIZE VARIANCE_DEPTH vertices fuel cv
            (t.child true).left (t.child true).right (t.child true).apex
            (cornerHeights (GetHeight PATCH_SIZE vertices) (t.child true)) (2 * node + 1)
          pure (cv, max (max (localError (GetHeight PATCH_SIZE vertices) t) v₁) v₂)
        else pure (cv, localError (GetHeight PATCH_SIZE vertices) t)
      let v := max (1 / 1000) v
      pure (if node < 2 ^ VARIANCE_DEPTH then Function.update cv node v else cv, v)) := by
  simp only [RecursComputeVariance, cornerHeights, Tri.child, localError, Subdivides, Tri.spanX,
    Tri.spanY, Tri.center, Nat.shiftLeft_eq, pow_one, one_mul, Nat.mul_comm node]

variable {PATCH_SIZE VARIANCE_DEPTH}

/-- **What `RecursComputeVariance` computes**, whenever it returns: for every bound `k` on the
depth of the computed subtree, the node's variance is its subtree's largest error floored at
`0.001`; the entry of every node of the computed subtree below `2 ^ VARIANCE_DEPTH` is that of
its own subtree; every other entry is left as it was. -/
theorem recursComputeVariance_spec (vertices : Nat → F) :
    ∀ (fuel : Nat) (cv : Nat → F) (t : Tri) (node : Nat) (cv' : Nat → F) (v : F), 1 ≤ node →
    RecursComputeVariance PATCH_SIZE VARIANCE_DEPTH vertices fuel cv t.left t.right t.apex
      (cornerHeights (GetHeight PATCH_SIZE vertices) t) node = some (cv', v) →
    (∀ k, Bounded k t → v = max (1 / 1000) (subtreeError (GetHeight PATCH_SIZE vertices) k t)) ∧
    (∀ ρ, InSubtree t ρ → heapIdx node ρ < 2 ^ VARIANCE_DEPTH → ∀ k, Bounded k (t.descend ρ) →
      cv' (heapIdx node ρ) =
        max (1 / 1000) (subtreeError (GetHeight PATCH_SIZE vertices) k (t.descend ρ))) ∧
    (∀ i, (∀ ρ, InSubtree t ρ → heapIdx node ρ ≠ i) → cv' i = cv i) := by
  intro fuel
  induction fuel with
  | zero => intro _ _ _ _ _ _ h; cases h
  | succ fuel ih =>
    intro cv t node cv' v hn h
    rw [recursComputeVariance_succ] at h
    set hgt := GetHeight PATCH_SIZE vertices
    by_cases ht : Subdivides t
    · simp only [if_pos ht, Option.bind_eq_bind, Option.bind_eq_some, Option.pure_def,
        Option.some.injEq, exists_eq_left', Prod.mk.injEq] at h
      obtain ⟨⟨cv₁, v₁⟩, h₁, ⟨cv₂, v₂⟩, h₂, rfl, rfl⟩ := h
      obtain ⟨hv₁, hd₁, hf₁⟩ := ih cv (t.child false) (2 * node) cv₁ v₁ (by omega) h₁
      obtain ⟨hv₂, hd₂, hf₂⟩ := ih cv₁ (t.child true) (2 * node + 1) cv₂ v₂ (by omega) h₂
      have hval : ∀ k, Bounded k t → max (1 / 1000) (max (max (localError hgt t) v₁) v₂) =
          max (1 / 1000) (subtreeError hgt k t) := by
        intro k hb
        obtain ⟨m, rfl, hb₀, hb₁⟩ := hb.children ht
        rw [hv₁ m hb₀, hv₂ m hb₁, subtreeError, if_pos ht, max_floor_absorb]
      refine ⟨hval, fun ρ hρ hi k hk => ?_, fun i hi => ?_⟩
      · rcases ρ with _ | ⟨b, ρ⟩
        · simp only [heapIdx, if_pos hi] at hi ⊢
          rw [if_pos hi, Function.update_same]; exact hval k hk
        · obtain ⟨-, hin⟩ := hρ
          have hlt : heapIdx node (b :: ρ) ≠ node := Nat.ne_of_gt (lt_heapIdx_cons hn b ρ)
          suffices cv₂ (heapIdx node (b :: ρ)) =
              max (1 / 1000) (subtreeError hgt k (t.descend (b :: ρ))) by
            split <;> simp only [Function.update_noteq hlt, this]
          rw [heapIdx_cons] at hi ⊢
          cases b
          · simp only [Bool.toNat_false, add_zero] at hi ⊢
            rw [hf₂ _ fun ρ' _ => (heapIdx_left_ne_right hn ρ ρ').symm]
            exact hd₁ ρ hin hi k hk
          · exact hd₂ ρ hin hi k hk
      · have hi₀ : i ≠ node := fun e => hi [] trivial (by simp [heapIdx, e])
        have h₂' : cv₂ i = cv₁ i := hf₂ i fun ρ hρ e => hi (true :: ρ) ⟨ht, hρ⟩ (by
          rw [heapIdx_cons]; exact e)
        have h₁' : cv₁ i = cv i := hf₁ i fun ρ hρ e => hi (false :: ρ) ⟨ht, hρ⟩ (by
          rw [heapIdx_cons]; exact e)
        split <;> simp [Function.update_noteq hi₀, h₂', h₁']
    · simp only [if_neg ht, Option.bind_eq_bind, Option.pure_def, Option.some_bind,
        Option.some.injEq, Prod.mk.injEq] at h
      obtain ⟨rfl, rfl⟩ := h
      refine ⟨fun k _ => by rw [subtreeError_of_not_subdivides hgt ht], fun ρ hρ hi k _ => ?_,
        fun i hi => ?_⟩
      · rcases ρ with _ | ⟨b, ρ⟩
        · simp only [heapIdx] at hi ⊢
          rw [if_pos hi, Function.update_same, Tri.descend_nil,
            subtreeError_of_not_subdivides hgt ht]
        · exact absurd hρ.1 ht
      · have hi₀ : i ≠ node := fun e => hi [] trivial (by simp [heapIdx, e])
        split <;> simp [Function.update_noteq hi₀]

theorem recursComputeVariance_isSome (vertices : Nat → F) :
    ∀ (n fuel : Nat) (cv : Nat → F) (t : Tri) (node : Nat), Bounded n t → n < fuel →
    (RecursComputeVariance PATCH_SIZE VARIANCE_DEPTH vertices fuel cv t.left t.right t.apex
      (cornerHeights (GetHeight PATCH_SIZE vertices) t) node).isSome := by
  intro n
  induction n with
  | zero =>
    intro fuel cv t node hb hf
    obtain ⟨fuel, rfl⟩ : ∃ f, fuel = f + 1 := ⟨fuel - 1, by omega⟩
    rw [recursComputeVariance_succ, if_neg hb]; rfl
  | succ m ih =>
    intro fuel cv t node hb hf
    obtain ⟨fuel, rfl⟩ : ∃ f, fuel = f + 1 := ⟨fuel - 1, by omega⟩
    rw [recursComputeVariance_succ]
    by_cases ht : Subdivides t
    · obtain ⟨hb₀, hb₁⟩ := hb ht
      obtain ⟨⟨cv₁, v₁⟩, h₁⟩ := Option.isSome_iff_exists.mp (ih fuel cv _ (2 * node) hb₀ (by omega))
      obtain ⟨⟨cv₂, v₂⟩, h₂⟩ :=
        Option.isSome_iff_exists.mp (ih fuel cv₁ _ (2 * node + 1) hb₁ (by omega))
      simp only [if_pos ht, h₁, h₂, Option.bind_eq_bind, Option.some_bind, Option.pure_def,
        Option.isSome_some]
    · rw [if_neg ht]; rfl

/-! ### Patches of side `2 ^ p` -/

section PowerOfTwo

variable {p : Nat}

theorem bounded_descend (r : Bool) :
    ∀ (k : Nat) (π : List Bool), π.length ≤ 2 * p → 2 * p ≤ π.length + k + 2 →
      Bounded k ((rootTri (2 ^ p) r).descend π) := by
  intro k
  induction k with
  | zero =>
    intro π hπ hk hs
    have := (span_ge_four_iff p r ⟨0, 0⟩ hπ).mp (by simpa using hs)
    omega
  | succ k ih =>
    intro π hπ hk hs
    have h3 := (span_ge_four_iff p r ⟨0, 0⟩ hπ).mp (by simpa using hs)
    exact ⟨by rw [← Tri.descend_concat]; exact ih _ (by simp; omega) (by simp; omega),
      by rw [← Tri.descend_concat]; exact ih _ (by simp; omega) (by simp; omega)⟩

theorem inSubtree_length (r : Bool) :
    ∀ (ρ π : List Bool), π.length ≤ 2 * p → InSubtree ((rootTri (2 ^ p) r).descend π) ρ →
      ρ = [] ∨ (π ++ ρ).length + 2 ≤ 2 * p := by
  intro ρ
  induction ρ with
  | nil => intro _ _ _; exact Or.inl rfl
  | cons b ρ ih =>
    intro π hπ ⟨hs, hin⟩
    have h3 := (span_ge_four_iff p r ⟨0, 0⟩ hπ).mp (by simpa using hs)
    rw [← Tri.descend_concat] at hin
    rcases ih _ (by simp; omega) hin with rfl | h
    · right; simp; omega
    · right; simpa using h

theorem inSubtree_descend (r : Bool) :
    ∀ (ρ π : List Bool), (π ++ ρ).length + 2 ≤ 2 * p →
      InSubtree ((rootTri (2 ^ p) r).descend π) ρ := by
  intro ρ
  induction ρ with
  | nil => intro _ _; trivial
  | cons b ρ ih =>
    intro π hl
    simp only [List.length_append, List.length_cons] at hl
    refine ⟨?_, ?_⟩
    · have := span_ge_four_iff p r ⟨0, 0⟩ (show π.length ≤ 2 * p by omega)
      simpa [Subdivides] using this.mpr (by omega)
    · rw [← Tri.descend_concat]; exact ih _ (by simp; omega)

variable {VARIANCE_DEPTH : Nat}

theorem computeVariance_eq (fuel : Nat) (patch : Patch F) :
    ComputeVariance PATCH_SIZE VARIANCE_DEPTH fuel patch =
    (do
      let (vl, _) ← RecursComputeVariance PATCH_SIZE VARIANCE_DEPTH patch.vertices fuel
        (patch.variance false) (rootTri PATCH_SIZE false).left (rootTri PATCH_SIZE false).right
        (rootTri PATCH_SIZE false).apex
        (cornerHeights (GetHeight PATCH_SIZE patch.vertices) (rootTri PATCH_SIZE false)) 1
      let (vr, _) ← RecursComputeVariance PATCH_SIZE VARIANCE_DEPTH patch.vertices fuel
        (patch.variance true) (rootTri PATCH_SIZE true).left (rootTri PATCH_SIZE true).right
        (rootTri PATCH_SIZE true).apex
        (cornerHeights (GetHeight PATCH_SIZE patch.vertices) (rootTri PATCH_SIZE true)) 1
      pure { patch with varianceLeft := vl, varianceRight := vr, isDirty := false }) := rfl

theorem computeVariance_roots {fuel : Nat} {patch patch' : Patch F}
    (h : ComputeVariance PATCH_SIZE VARIANCE_DEPTH fuel patch = some patch') (r : Bool) :
    ∃ v, RecursComputeVariance PATCH_SIZE VARIANCE_DEPTH patch.vertices fuel (patch.variance r)
      (rootTri PATCH_SIZE r).left (rootTri PATCH_SIZE r).right (rootTri PATCH_SIZE r).apex
      (cornerHeights (GetHeight PATCH_SIZE patch.vertices) (rootTri PATCH_SIZE r)) 1 =
      some (patch'.variance r, v) := by
  simp only [computeVariance_eq, Option.bind_eq_bind, Option.bind_eq_some, Option.pure_def,
    Option.some.injEq] at h
  obtain ⟨⟨vl, a⟩, hl, ⟨vr, b⟩, hr, rfl⟩ := h
  cases r
  · exact ⟨a, hl⟩
  · exact ⟨b, hr⟩

theorem cast_two_pow (p : Nat) : ((2 ^ p : Nat) : Int) = 2 ^ p := by
  push_cast; rfl

theorem computeVariance_isSome {fuel : Nat} (patch : Patch F) (hf : 2 * p < fuel) :
    (ComputeVariance (2 ^ p) VARIANCE_DEPTH fuel patch).isSome := by
  have hb : ∀ r, Bounded (2 * p) (rootTri ((2 ^ p : Nat) : Int) r) := fun r => by
    rw [cast_two_pow]; exact bounded_descend r (2 * p) [] (by simp) (by simp)
  obtain ⟨⟨vl, a⟩, hl⟩ := Option.isSome_iff_exists.mp
    (@recursComputeVariance_isSome F _ (2 ^ p) VARIANCE_DEPTH patch.vertices _ fuel
      (patch.variance false) _ 1 (hb false) hf)
  obtain ⟨⟨vr, b⟩, hr⟩ := Option.isSome_iff_exists.mp
    (@recursComputeVariance_isSome F _ (2 ^ p) VARIANCE_DEPTH patch.vertices _ fuel
      (patch.variance true) _ 1 (hb true) hf)
  rw [computeVariance_eq, hl]
  simp only [Option.bind_eq_bind, Option.some_bind, hr]
  rfl

theorem computeVariance_entry {fuel : Nat} {patch patch' : Patch F}
    (h : ComputeVariance (2 ^ p) VARIANCE_DEPTH fuel patch = some patch') (r : Bool)
    {π : List Bool} (hπ : π.length + 2 ≤ 2 * p) (hi : heapIdx 1 π < 2 ^ VARIANCE_DEPTH)
    (k : Nat) (hk : Bounded k ((rootTri (2 ^ p) r).descend π)) :
    patch'.variance r (heapIdx 1 π) =
      max (1 / 1000) (subtreeError (GetHeight (2 ^ p) patch.vertices) k
        ((rootTri (2 ^ p) r).descend π)) := by
  obtain ⟨v, hv⟩ := computeVariance_roots h r
  rw [cast_two_pow] at hv
  exact (recursComputeVariance_spec _ fuel _ _ 1 _ _ le_rfl hv).2.1 π
    (inSubtree_descend r π [] (by simpa using hπ)) hi k hk

theorem computeVariance_frame {fuel : Nat} {patch patch' : Patch F}
    (h : ComputeVariance (2 ^ p) VARIANCE_DEPTH fuel patch = some patch') (r : Bool)
    (hp : 1 ≤ p) {i : Nat} (hi : 2 ^ (2 * p - 1) ≤ i) :
    patch'.variance r i = patch.variance r i := by
  obtain ⟨v, hv⟩ := computeVariance_roots h r
  rw [cast_two_pow] at hv
  refine (recursComputeVariance_spec _ fuel _ _ 1 _ _ le_rfl hv).2.2 i fun ρ hρ e => ?_
  have hl : ρ.length + 1 ≤ 2 * p - 1 := by
    rcases inSubtree_length r ρ [] (by simp) hρ with rfl | h
    · simp; omega
    · simp at h; omega
  have := (heapIdx_bounds ρ 1).2
  have := Nat.pow_le_pow_right two_pos hl
  rw [pow_succ] at this
  omega

/-- **`ComputeVariance` on a patch of side `2 ^ p`.** It returns once `fuel` exceeds `2p`;
afterwards, for each half and every node at depth at most `2p - 2` whose heap index is stored,
the computed subtree fits in `2p` levels, the entry is the largest local error over it, floored
at `0.001`, and it is at least the entries of both children, provided the entries below depth
`2p - 2`, which the computation never writes, are at most `0.001` (the constructor's zeros). -/
theorem computeVariance_correct (patch : Patch F)
    (hstale : ∀ r i, 2 ^ (2 * p - 1) ≤ i → patch.variance r i ≤ 1 / 1000) :
    (∀ fuel, 2 * p < fuel → (ComputeVariance (2 ^ p) VARIANCE_DEPTH fuel patch).isSome) ∧
    ∀ fuel patch', ComputeVariance (2 ^ p) VARIANCE_DEPTH fuel patch = some patch' →
    ∀ r π, π.length + 2 ≤ 2 * p → heapIdx 1 π < 2 ^ VARIANCE_DEPTH →
      Bounded (2 * p) ((rootTri (2 ^ p) r).descend π) ∧
      patch'.variance r (heapIdx 1 π) =
        max (1 / 1000) (subtreeError (GetHeight (2 ^ p) patch.vertices) (2 * p)
          ((rootTri (2 ^ p) r).descend π)) ∧
      1 / 1000 ≤ patch'.variance r (heapIdx 1 π) ∧
      ∀ b, heapIdx 1 (π ++ [b]) < 2 ^ VARIANCE_DEPTH →
        patch'.variance r (heapIdx 1 (π ++ [b])) ≤ patch'.variance r (heapIdx 1 π) := by
  refine ⟨fun fuel hf => computeVariance_isSome patch hf, fun fuel patch' h r π hπ hi => ?_⟩
  obtain ⟨m, hm⟩ : ∃ m, 2 * p = m + 1 := ⟨2 * p - 1, by omega⟩
  have hb : Bounded (2 * p) ((rootTri (2 ^ p) r).descend π) :=
    bounded_descend r _ π (by omega) (by omega)
  have he := computeVariance_entry h r hπ hi (2 * p) hb
  refine ⟨hb, he, he ▸ le_max_left _ _, fun b hib => ?_⟩
  by_cases hd : π.length + 3 ≤ 2 * p
  · -- the child is computed too, and its subtree is part of its parent's
    have hs : Subdivides ((rootTri (2 ^ p) r).descend π) := by
      simpa using (span_ge_four_iff p r ⟨0, 0⟩ (show π.length ≤ 2 * p by omega)).mpr hd
    rw [computeVariance_entry h r (by simp; omega) hib m
        (bounded_descend r m (π ++ [b]) (by simp; omega) (by simp; omega)),
      computeVariance_entry h r hπ hi (m + 1) (hm ▸ hb), subtreeError, if_pos hs,
      Tri.descend_concat]
    refine max_le_max le_rfl ?_
    cases b
    · exact le_max_of_le_left (le_max_right _ _)
    · exact le_max_right _ _
  · -- the child lies below the computed subtree: its entry is the old one
    have hlo : 2 ^ (2 * p - 1) ≤ heapIdx 1 (π ++ [b]) := by
      have := (heapIdx_bounds (π ++ [b]) 1).1
      simp only [List.length_append, List.length_singleton, mul_one] at this
      rwa [show 2 * p - 1 = π.length + 1 by omega]
    rw [computeVariance_frame h r (by omega) hlo]
    exact (hstale r _ hlo).trans (he ▸ le_max_left _ _)

theorem variance_init_le {F : Type} [LinearOrderedField F] (fltMax : F) (r : Bool) (i : Nat) :
    (Patch.init fltMax).variance r i ≤ 1 / 1000 := by
  cases r <;> exact div_nonneg zero_le_one (Nat.ofNat_nonneg _)

/-- A patch of side 4 whose heights rise along the vertex array from `-35/3` to `37/3`: a
shore line runs across it, and the local errors differ from triangle to triangle. -/
def shorePatch : Patch ℚ := { Patch.init 0 with vertices := fun i => (i : ℚ) / 3 - 12 }

/-- The patch `shorePatch`, with 8 stored entries per half. -/
theorem computeVariance_correct_init :
    (∀ r i, 2 ^ (2 * 2 - 1) ≤ i → shorePatch.variance r i ≤ 1 / 1000) ∧
    (∀ fuel, 2 * 2 < fuel → (ComputeVariance (2 ^ 2) 3 fuel shorePatch).isSome) ∧
    ∀ fuel patch', ComputeVariance (2 ^ 2) 3 fuel shorePatch = some patch' →
    ∀ r π, π.length + 2 ≤ 2 * 2 → heapIdx 1 π < 2 ^ 3 →
      Bounded (2 * 2) ((rootTri (2 ^ 2) r).descend π) ∧
      patch'.variance r (heapIdx 1 π) =
        max (1 / 1000) (subtreeError (GetHeight (2 ^ 2) shorePatch.vertices) (2 * 2)
          ((rootTri (2 ^ 2) r).descend π)) ∧
      1 / 1000 ≤ patch'.variance r (heapIdx 1 π) ∧
      ∀ b, heapIdx 1 (π ++ [b]) < 2 ^ 3 →
        patch'.variance r (heapIdx 1 (π ++ [b])) ≤ patch'.variance r (heapIdx 1 π) :=
  ⟨fun r i _ => variance_init_le 0 r i,
    computeVariance_correct shorePatch fun r i _ => variance_init_le 0 r i⟩

end PowerOfTwo

end Variance

end SpringRoam
