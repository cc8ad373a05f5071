import SpringRoam.Split
import SpringRoam.Grid
import SpringRoam.Tessellate

/-!
# What one call of `Split` can do

`split_some_cases` says once everything a returning call of `Split` does: return at once on a
branch, or run the forced split, allocate, and either make the node a leaf again or link the
children and finish the diamond. Every lemma about `Split` below goes through it.

* `split_keeps_branch`: no call of `Split` turns a branch into a leaf;
* `split_flag`: the returned flag says whether the node is a branch afterwards.
-/

namespace SpringRoam

namespace Mesh

variable (m : Mesh) (x : TriPtr)

/-! ### The link writes keep every node's children -/

@[simp] theorem setSlot_LeftChild (p : TriPtr) (s : Slot) (o : Option TriPtr) :
    ((m.setSlot p s o).node x).LeftChild = (m.node x).LeftChild := by
  rw [setSlot_node]; split_ifs with h <;> simp [h]

@[simp] theorem setSlot_RightChild (p : TriPtr) (s : Slot) (o : Option TriPtr) :
    ((m.setSlot p s o).node x).RightChild = (m.node x).RightChild := by
  rw [setSlot_node]; split_ifs with h <;> simp [h]

@[simp] theorem relink_LeftChild (nb tri c : TriPtr) (s₂ s₃ : Slot) :
    ((m.relink nb tri c s₂ s₃).node x).LeftChild = (m.node x).LeftChild := by
  unfold relink; split_ifs <;> first | rfl | exact setSlot_LeftChild ..

@[simp] theorem relink_RightChild (nb tri c : TriPtr) (s₂ s₃ : Slot) :
    ((m.relink nb tri c s₂ s₃).node x).RightChild = (m.node x).RightChild := by
  unfold relink; split_ifs <;> first | rfl | exact setSlot_RightChild ..

@[simp] theorem linkChildren_LeftChild (tri lc rc : TriPtr) :
    ((m.linkChildren tri lc rc).node x).LeftChild = (m.node x).LeftChild := by
  unfold linkChildren; dsimp only
  split <;> split <;> simp only [relink_LeftChild, setSlot_LeftChild]

@[simp] theorem linkChildren_RightChild (tri lc rc : TriPtr) :
    ((m.linkChildren tri lc rc).node x).RightChild = (m.node x).RightChild := by
  unfold linkChildren; dsimp only
  split <;> split <;> simp only [relink_RightChild, setSlot_RightChild]

@[simp] theorem crossLink_LeftChild (lc rc bl br : TriPtr) :
    ((m.crossLink lc rc bl br).node x).LeftChild = (m.node x).LeftChild := by
  simp only [crossLink, setSlot_LeftChild]

@[simp] theorem crossLink_RightChild (lc rc bl br : TriPtr) :
    ((m.crossLink lc rc bl br).node x).RightChild = (m.node x).RightChild := by
  simp only [crossLink, setSlot_RightChild]

/-- The node reached from `p` by following the child links along `π`, if they are there. -/
def nodeAt : TriPtr → List Bool → Option TriPtr
  | p, [] => some p
  | p, b :: π => (if b then (m.node p).RightChild else (m.node p).LeftChild).bind fun c => nodeAt c π

@[simp] theorem allocate_node (thr : Nat) : (m.allocate thr).2.node = m.node := by
  unfold allocate; split <;> rfl

theorem allocate_node_eq {thr : Nat} {o : Option (TriPtr × TriPtr)} {m' : Mesh}
    (h : m.allocate thr = (o, m')) : m'.node = m.node := by
  rw [← allocate_node m thr, h]

@[simp] theorem setSlot_IsLeaf (p : TriPtr) (s : Slot) (o : Option TriPtr) :
    ((m.setSlot p s o).node x).IsLeaf = (m.node x).IsLeaf := by
  simp only [TriTreeNode.IsLeaf, setSlot_LeftChild, setSlot_RightChild]

@[simp] theorem linkChildren_IsLeaf (tri lc rc : TriPtr) :
    ((m.linkChildren tri lc rc).node x).IsLeaf = (m.node x).IsLeaf := by
  simp only [TriTreeNode.IsLeaf, linkChildren_LeftChild, linkChildren_RightChild]

@[simp] theorem crossLink_IsLeaf (lc rc bl br : TriPtr) :
    ((m.crossLink lc rc bl br).node x).IsLeaf = (m.node x).IsLeaf := by
  simp only [TriTreeNode.IsLeaf, crossLink_LeftChild, crossLink_RightChild]

end Mesh

/-! ### Inversion -/

section Inversion

variable (thr fuel : Nat)

/-- The forced split of `Split` (lines 217-222), from `m` to `m₁`. -/
def ForcedStep (m : Mesh) (tri : TriPtr) (m₁ : Mesh) : Prop :=
  match (m.node tri).BaseNeighbor with
  | some b =>
    if (m.node b).BaseNeighbor ≠ some tri then ∃ r, Split thr fuel m b = some (m₁, r) else m₁ = m
  | none => m₁ = m

/-- The end of `Split` (lines 259-275) after the children `lc`, `rc` of `tri` are linked in
`m`: cross-link with a split base neighbor, split the base neighbor, or clear the children's
outer links on the map edge. -/
def PartnerStep (m : Mesh) (tri lc rc : TriPtr) (m' : Mesh) : Prop :=
  match (m.node tri).BaseNeighbor with
  | some bn =>
    match (m.node bn).LeftChild, (m.node bn).RightChild with
    | some bl, some br => m' = m.crossLink lc rc bl br
    | _, _ => ∃ r, Split thr fuel m bn = some (m', r)
  | none => m' = (m.setSlot lc .right none).setSlot rc .left none

/-- **Everything a returning call of `Split` does.** -/
theorem split_some_cases {m m' : Mesh} {tri : TriPtr} {b : Bool}
    (h : Split thr (fuel + 1) m tri = some (m', b)) :
    ((m.node tri).IsLeaf = false ∧ m' = m ∧ b = true) ∨
    ((m.node tri).IsLeaf = true ∧ ∃ m₁, ForcedStep thr fuel m tri m₁ ∧
      ((∃ m₂, m₁.allocate thr = (none, m₂) ∧ m' = m₂.setChildren tri none none ∧ b = false) ∨
       (∃ lc rc m₂, m₁.allocate thr = (some (lc, rc), m₂) ∧ b = true ∧
         PartnerStep thr fuel ((m₂.setChildren tri (some lc) (some rc)).linkChildren tri lc rc)
           tri lc rc m'))) := by
  unfold Split at h
  by_cases hl : (m.node tri).IsLeaf
  · right
    rw [if_neg (by simp [hl])] at h
    obtain ⟨m₁, h₁, h⟩ := Option.bind_eq_some.mp h
    refine ⟨hl, m₁, ?_, ?_⟩
    · unfold ForcedStep
      cases hb : (m.node tri).BaseNeighbor with
      | none => simp only [hb, Option.pure_def, Option.some.injEq] at h₁; exact h₁.symm
      | some bb =>
        simp only [hb] at h₁ ⊢
        split_ifs at h₁ ⊢
        · simp only [Option.map_eq_map, Option.map_eq_some', Prod.exists] at h₁
          obtain ⟨a, r, hs, rfl⟩ := h₁
          exact ⟨r, hs⟩
        · simp only [Option.pure_def, Option.some.injEq] at h₁; exact h₁.symm
    · split at h
      · rename_i m₂ he
        simp only [Option.pure_def, Option.some.injEq, Prod.mk.injEq] at h
        exact .inl ⟨m₂, he, h.1.symm, h.2.symm⟩
      · rename_i lc rc m₂ he
        refine .inr ⟨lc, rc, m₂, he, ?_⟩
        dsimp only at h
        unfold PartnerStep
        generalize (m₂.setChildren tri (some lc) (some rc)).linkChildren tri lc rc = m₃ at h ⊢
        cases hbn : (m₃.node tri).BaseNeighbor with
        | none =>
          simp only [hbn, Option.pure_def, Option.some.injEq, Prod.mk.injEq] at h ⊢
          exact ⟨h.2.symm, h.1.symm⟩
        | some bn =>
          simp only [hbn] at h ⊢
          cases hc : (m₃.node bn).LeftChild <;> cases hd : (m₃.node bn).RightChild <;>
            simp only [hc, hd, Option.pure_def, Option.some.injEq, Prod.mk.injEq,
              Option.bind_eq_bind, Option.bind_eq_some] at h ⊢
          all_goals first
            | exact ⟨h.2.symm, h.1.symm⟩
            | (obtain ⟨⟨m'', r⟩, hs, rfl, rfl⟩ := h; exact ⟨rfl, r, hs⟩)
  · left
    simp only [hl, Bool.not_false, if_true, Option.some.injEq, Prod.mk.injEq] at h
    exact ⟨by simpa using hl, h.1.symm, h.2.symm⟩

/-- A patch at `coors` whose stored variances are `100` at the heap indices listed in
`hotLeft` and `hotRight` and `0` at all others. -/
def hotPatch (coors : Int2) (hotLeft hotRight : List Nat) : Patch ℚ :=
  { Patch.init 0 with
    coors := coors
    varianceLeft := fun i => if i ∈ hotLeft then 100 else 0
    varianceRight := fun i => if i ∈ hotRight then 100 else 0 }

set_option maxRecDepth 100000 in
/-- A frame on a `5 × 2` grid of patches of side 8, two workers with pools of 22 nodes: after
three `Tessellate` calls, the leaf at depth 4 below `baseRight` of patch `(2, 0)` has as base
neighbor the leaf at depth 2 below `baseLeft` of the same patch, which does not name it back, so
the forced split of the next `Split` of that leaf goes two levels up. -/
theorem split_forced_two_levels_up :
    (do
      let (_, m, _) ← Tessellate 8 7 1 0 (fun _ _ => 0) (hotPatch ⟨32, 8⟩ [1, 2] [1, 2, 3]) 4 1
        ⟨0, 0, 0⟩ 4000 0 30 (freshMesh 5 2 fun _ => 22)
      let (_, m, _) ← Tessellate 8 7 1 0 (fun _ _ => 0) (hotPatch ⟨8, 0⟩ [] [1, 2]) 1 0
        ⟨0, 0, 0⟩ 4000 0 30 m
      let (_, m, _) ← Tessellate 8 7 1 0 (fun _ _ => 0) (hotPatch ⟨16, 0⟩ [1, 3] [1, 2, 5, 10]) 2 0
        ⟨0, 0, 0⟩ 4000 1 30 m
      let t ← m.nodeAt (.baseRight 2 0) [false, true, false, true]
      let b ← m.nodeAt (.baseLeft 2 0) [true, true]
      pure ((m.node t).IsLeaf, (m.node t).BaseNeighbor == some b, (m.node b).BaseNeighbor == some t)) =
    some (true, true, false) := by
  with_unfolding_all decide

end Inversion

/-! ### Branches stay branches -/

section Branches

variable {thr : Nat}

theorem ForcedStep.keeps {P : Mesh → Prop} {fuel : Nat} {m m₁ : Mesh} {tri : TriPtr}
    (hf : ForcedStep thr fuel m tri m₁) (hm : P m)
    (ih : ∀ b m' r, Split thr fuel m b = some (m', r) → P m') : P m₁ := by
  unfold ForcedStep at hf
  split at hf
  · split_ifs at hf
    · obtain ⟨r, hs⟩ := hf; exact ih _ _ _ hs
    · exact hf ▸ hm
  · exact hf ▸ hm

/-- **No call of `Split` turns a branch into a leaf**: children are only ever set on the node a
call starts from, and only while it is a leaf. -/
theorem split_keeps_branch : ∀ (fuel : Nat) (m : Mesh) (tri : TriPtr) (m' : Mesh) (b : Bool)
    (x : TriPtr), (m.node x).IsLeaf = false → Split thr fuel m tri = some (m', b) →
    (m'.node x).IsLeaf = false := by
  intro fuel
  induction fuel with
  | zero => intro _ _ _ _ _ _ h; cases h
  | succ fuel ih =>
    intro m tri m' b x hx h
    rcases split_some_cases thr fuel h with ⟨-, rfl, -⟩ | ⟨hl, m₁, hf, hrest⟩
    · exact hx
    · have hne : x ≠ tri := fun e => by subst e; simp [hl] at hx
      have h₁ : (m₁.node x).IsLeaf = false :=
        hf.keeps (P := fun m => (m.node x).IsLeaf = false) hx fun b m' r hs => ih _ _ _ _ _ hx hs
      rcases hrest with ⟨m₂, ha, rfl, -⟩ | ⟨lc, rc, m₂, ha, -, hp⟩
      · rw [Mesh.setChildren_node, if_neg hne, Mesh.allocate_node_eq m₁ ha]; exact h₁
      · have h₃ : (((m₂.setChildren tri (some lc) (some rc)).linkChildren tri lc rc).node x).IsLeaf
            = false := by
          rw [Mesh.linkChildren_IsLeaf, Mesh.setChildren_node, if_neg hne,
            Mesh.allocate_node_eq m₁ ha]; exact h₁
        unfold PartnerStep at hp
        split at hp
        · split at hp
          · subst hp; rw [Mesh.crossLink_IsLeaf]; exact h₃
          · obtain ⟨r, hs⟩ := hp; exact ih _ _ _ _ _ h₃ hs
        · subst hp; simp only [Mesh.setSlot_IsLeaf]; exact h₃

/-- **The flag `Split` returns says whether the node is a branch afterwards.** -/
theorem split_flag {fuel : Nat} {m m' : Mesh} {tri : TriPtr} {b : Bool}
    (h : Split thr fuel m tri = some (m', b)) : b = !(m'.node tri).IsLeaf := by
  cases fuel with
  | zero => cases h
  | succ fuel =>
    rcases split_some_cases thr fuel h with ⟨hl, rfl, rfl⟩ | ⟨-, m₁, -, hrest⟩
    · simp [hl]
    · rcases hrest with ⟨m₂, -, rfl, rfl⟩ | ⟨lc, rc, m₂, -, rfl, hp⟩
      · simp [TriTreeNode.IsLeaf]
      · have h₃ : (((m₂.setChildren tri (some lc) (some rc)).linkChildren tri lc rc).node
            tri).IsLeaf = false := by simp [TriTreeNode.IsLeaf]
        unfold PartnerStep at hp
        split at hp
        · split at hp
          · subst hp; simp only [Mesh.crossLink_IsLeaf, h₃, Bool.not_false]
          · obtain ⟨r, hs⟩ := hp
            simp only [split_keeps_branch _ _ _ _ _ _ h₃ hs, Bool.not_false]
        · subst hp; simp only [Mesh.setSlot_IsLeaf, h₃, Bool.not_false]

/-- One patch, one worker whose pool holds one pair: `Split(baseLeft)` takes the pair, the
partner split of `baseRight` finds the pool empty, and its `false` is dropped: the call returns
`true` with `baseLeft` a branch whose base neighbor `baseRight` is still a leaf. -/
theorem split_true_partner_leaf :
    (Split 0 3 (freshMesh 1 1 fun _ => 2) (.baseLeft 0 0)).map (fun r =>
      (r.2, (r.1.node (.baseLeft 0 0)).IsLeaf, (r.1.node (.baseLeft 0 0)).BaseNeighbor,
        (r.1.node (.baseRight 0 0)).IsLeaf)) =
    some (true, false, some (.baseRight 0 0), true) := by
  decide

end Branches

end SpringRoam
