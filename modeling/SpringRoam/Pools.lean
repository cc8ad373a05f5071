import SpringRoam.Node

/-!
# `CTriNodePool::InitPools` and `CTriNodePool::ResetAll`

The statics of `Patch.cpp`: `CUR_POOL_SIZE`, one value for both passes, `MAX_POOL_SIZE`, and
`pools`, the pools of each pass (`false` the main pass, `true` the shadow pass), one per worker
thread. `size_t` arithmetic wraps modulo `2 ^ 64` where it can overflow:
`thrPoolSize + (thrPoolSize & 1)` and `CUR_POOL_SIZE * 2`. Whether building a pass's pools
throws `std::bad_alloc` is an input, `badAllocs`: how many attempts in a row throw before one
succeeds.

`requested` is a ghost field: the total size the pass's pools were last built for, the value
`CUR_POOL_SIZE` took when they were.

A run is a list of `PoolEvent`s from `PoolStatics.init`: builds, resets, and `Allocate` calls
on a pass's pools, with no `bad_alloc`. `CTriNodePool.run` follows one pool through a sequence
of `Allocate` and `Reset` calls, with the slots handed out since the last `Reset` as a ghost.
-/

namespace SpringRoam

/-- The statics of the pool manager, and the ghost `requested`. -/
structure PoolStatics where
  CUR_POOL_SIZE : Nat
  MAX_POOL_SIZE : Nat
  pools : Bool → List CTriNodePool
  requested : Bool → Nat

/-- The statics at startup: `CUR_POOL_SIZE = 0`, `MAX_POOL_SIZE = NEW_POOL_SIZE * 8`. -/
def PoolStatics.init (NEW_POOL_SIZE : Nat) : PoolStatics where
  CUR_POOL_SIZE := 0
  MAX_POOL_SIZE := NEW_POOL_SIZE * 8 % 2 ^ 64
  pools := fun _ => []
  requested := fun _ => 0

section Pools

variable (numThreads : Nat)

/-- The capacity `InitPools` gives each thread's pool for the total `newPoolSize`:
`thrPoolSize + (thrPoolSize & 1)` in `size_t`. -/
def thrPoolCapacity (newPoolSize : Nat) : Nat :=
  let thrPoolSize := max (newPoolSize / numThreads) (newPoolSize / 3)
  (thrPoolSize + thrPoolSize % 2) % 2 ^ 64

/-- **`CTriNodePool::InitPools`** with `ThreadPool::GetMaxThreads() = numThreads`, after
`badAllocs` attempts that throw. -/
def InitPools (shadowPass : Bool) : Nat → Nat → PoolStatics → PoolStatics
  | 0, newPoolSize, s =>
    { s with
      CUR_POOL_SIZE := newPoolSize
      pools := Function.update s.pools shadowPass
        (List.replicate numThreads { size := thrPoolCapacity numThreads newPoolSize })
      requested := Function.update s.requested shadowPass newPoolSize }
  | badAllocs + 1, newPoolSize, s =>
    -- try again after reducing the wanted pool-size by a quarter
    let n := newPoolSize - (newPoolSize >>> 2)
    InitPools shadowPass badAllocs n { s with CUR_POOL_SIZE := newPoolSize, MAX_POOL_SIZE := n }

/-- **`CTriNodePool::ResetAll`**: every pool of the pass is reset; if one was out of nodes and
`CUR_POOL_SIZE` is below `MAX_POOL_SIZE`, the pass's pools are rebuilt at twice
`CUR_POOL_SIZE`, capped at `MAX_POOL_SIZE`. -/
def ResetAll (shadowPass : Bool) (badAllocs : Nat) (s : PoolStatics) : PoolStatics :=
  let outOfNodes := (s.pools shadowPass).any CTriNodePool.OutOfNodes
  let s := { s with
    pools := Function.update s.pools shadowPass ((s.pools shadowPass).map CTriNodePool.Reset) }
  if !outOfNodes then s else
  if s.MAX_POOL_SIZE ≤ s.CUR_POOL_SIZE then s else
  InitPools numThreads shadowPass badAllocs (min (s.CUR_POOL_SIZE * 2 % 2 ^ 64) s.MAX_POOL_SIZE) s

/-- What happens to the statics between two frames. -/
inductive PoolEvent
  | initPools (shadowPass : Bool) (newPoolSize : Nat)
  | resetAll (shadowPass : Bool)
  | allocate (shadowPass : Bool) (thr : Nat)
deriving DecidableEq, Repr

/-- One event, with no `bad_alloc`. -/
def PoolEvent.apply : PoolEvent → PoolStatics → PoolStatics
  | .initPools pass n, s => InitPools numThreads pass 0 n s
  | .resetAll pass, s => ResetAll numThreads pass 0 s
  | .allocate pass thr, s =>
    let ps := (s.pools pass).modify (fun p => p.Allocate.2) thr
    { s with pools := Function.update s.pools pass ps }

/-- The statics after the events `es`, in order, from startup. -/
def poolRun (NEW_POOL_SIZE : Nat) (es : List PoolEvent) : PoolStatics :=
  es.foldl (fun s e => e.apply numThreads s) (PoolStatics.init NEW_POOL_SIZE)

/-! ### One pool -/

section Pool

variable {p : CTriNodePool}

theorem CTriNodePool.Allocate_eq (p : CTriNodePool) :
    p.Allocate = if p.nextTriNodeIdx < p.size then
      (some (p.nextTriNodeIdx, p.nextTriNodeIdx + 1), { p with nextTriNodeIdx := p.nextTriNodeIdx + 2 })
    else (none, p) := by
  unfold CTriNodePool.Allocate CTriNodePool.OutOfNodes CTriNodePool.bump
  by_cases h : p.nextTriNodeIdx < p.size
  · simp [h]
  · simp [h, Nat.le_of_not_lt h]

/-- The cursor of a pool of even capacity is even and within the capacity. -/
def CTriNodePool.Inv (p : CTriNodePool) : Prop :=
  p.size % 2 = 0 ∧ p.nextTriNodeIdx % 2 = 0 ∧ p.nextTriNodeIdx ≤ p.size

theorem CTriNodePool.Inv.reset (h : p.Inv) : p.Reset.Inv := ⟨h.1, rfl, Nat.zero_le _⟩

/-- **`Allocate` keeps the invariant**; when it succeeds, both slots lie below the capacity
and at or above the old cursor, so neither was handed out since the last `Reset`. -/
theorem CTriNodePool.Inv.allocate (h : p.Inv) :
    p.Allocate.2.Inv ∧ ∀ i j, p.Allocate.1 = some (i, j) →
      p.nextTriNodeIdx ≤ i ∧ i < j ∧ j < p.size ∧ p.Allocate.2.nextTriNodeIdx = j + 1 := by
  obtain ⟨h₁, h₂, h₃⟩ := h
  rw [CTriNodePool.Allocate_eq]
  split
  · refine ⟨⟨h₁, by simp; omega, by simp; omega⟩, ?_⟩
    simp only [Option.some.injEq, Prod.mk.injEq]
    omega
  · exact ⟨⟨h₁, h₂, h₃⟩, by simp⟩

theorem CTriNodePool.Allocate_size (p : CTriNodePool) : p.Allocate.2.size = p.size := by
  unfold CTriNodePool.Allocate; split <;> rfl

/-- A call on one pool. -/
inductive PoolCall
  | allocate
  | reset
deriving DecidableEq, Repr

/-- The pool after the calls `cs`, and, on top of `handed`, the slots handed out since the last
`Reset`, newest first. The list is a ghost: the code keeps only the cursor. -/
def CTriNodePool.run : List PoolCall → CTriNodePool → List Nat → CTriNodePool × List Nat
  | [], p, handed => (p, handed)
  | .allocate :: cs, p, handed =>
    CTriNodePool.run cs p.Allocate.2 (match p.Allocate.1 with
      | some (i, j) => j :: i :: handed
      | none => handed)
  | .reset :: cs, p, _ => CTriNodePool.run cs p.Reset []

/-- The invariant holds, and the slots handed out since the last `Reset` are distinct and lie
below the cursor. -/
def CTriNodePool.Handed (p : CTriNodePool) (handed : List Nat) : Prop :=
  p.Inv ∧ handed.Nodup ∧ ∀ i ∈ handed, i < p.nextTriNodeIdx

theorem CTriNodePool.Handed.allocate {handed : List Nat} (h : p.Handed handed) :
    p.Allocate.2.Handed (match p.Allocate.1 with
      | some (i, j) => j :: i :: handed
      | none => handed) := by
  obtain ⟨hinv, hnd, hlt⟩ := h
  obtain ⟨hinv', hspec⟩ := hinv.allocate
  rcases e : p.Allocate.1 with _ | ⟨i, j⟩
  · -- a failed `Allocate` leaves the pool as it was
    have hp : p.Allocate.2 = p := by
      rw [CTriNodePool.Allocate_eq] at e ⊢
      by_cases hc : p.nextTriNodeIdx < p.size <;> simp [hc] at e ⊢
    exact ⟨hinv', hnd, by rwa [hp]⟩
  · -- the two new slots lie at or past the old cursor and below the new one
    obtain ⟨hi, hij, -, hcur⟩ := hspec i j e
    refine ⟨hinv', ?_, fun k hk => ?_⟩
    · simp only [List.nodup_cons, List.mem_cons, not_or]
      exact ⟨⟨by omega, fun hj => by have := hlt j hj; omega⟩,
        fun hi' => by have := hlt i hi'; omega, hnd⟩
    · rw [hcur]
      simp only [List.mem_cons] at hk
      rcases hk with rfl | rfl | hk
      · omega
      · omega
      · have := hlt k hk; omega

/-- **The bump allocator over a run of calls**: the capacity stays, and `Handed` holds after
every sequence of `Allocate` and `Reset` calls. -/
theorem CTriNodePool.Handed.run : ∀ (cs : List PoolCall) {p : CTriNodePool} {handed : List Nat},
    p.Handed handed →
      (p.run cs handed).1.Handed (p.run cs handed).2 ∧ (p.run cs handed).1.size = p.size
  | [], _, _, h => ⟨h, rfl⟩
  | .allocate :: cs, p, _, h =>
    have ih := Handed.run cs h.allocate
    ⟨ih.1, ih.2.trans p.Allocate_size⟩
  | .reset :: cs, _, _, h =>
    Handed.run cs ⟨h.1.reset, List.nodup_nil, List.forall_mem_nil _⟩

end Pool

/-! ### Capacities -/

section Capacity

variable {numThreads}

theorem thrPoolCapacity_even_pos {n : Nat} (hT : 1 ≤ numThreads) (hn : 3 ≤ n) (hlt : n < 2 ^ 64)
    (hwrap : ¬ (numThreads = 1 ∧ n = 2 ^ 64 - 1)) :
    thrPoolCapacity numThreads n % 2 = 0 ∧ 0 < thrPoolCapacity numThreads n := by
  have ht : max (n / numThreads) (n / 3) < 2 ^ 64 - 1 := by
    rcases Nat.lt_or_ge numThreads 2 with h1 | h2
    · rw [show numThreads = 1 by omega, Nat.div_one]; omega
    · have : n / numThreads ≤ n / 2 := Nat.div_le_div_left h2 (by decide)
      omega
  have h1 : 1 ≤ max (n / numThreads) (n / 3) := by omega
  unfold thrPoolCapacity
  dsimp only
  generalize max (n / numThreads) (n / 3) = t at ht h1 ⊢
  rw [Nat.mod_eq_of_lt (show t + t % 2 < 2 ^ 64 by omega)]
  omega

/-- **With one worker thread, `InitPools` for the total `SIZE_MAX` builds a pool of capacity
zero**: `thrPoolSize + (thrPoolSize & 1)` wraps, and `assert(poolSize > 0)` fails. -/
theorem initPools_size_max_one_thread (pass : Bool) (s : PoolStatics) :
    (InitPools 1 pass 0 (2 ^ 64 - 1) s).pools pass = [{ size := 0 }] := by
  simp only [InitPools, Function.update_same]
  decide

theorem initPools_pools (pass : Bool) : ∀ (k n : Nat) (s : PoolStatics), 3 ≤ n →
    ∃ n', 3 ≤ n' ∧ n' ≤ n ∧ (InitPools numThreads pass k n s).pools pass =
      List.replicate numThreads { size := thrPoolCapacity numThreads n' }
  | 0, n, _, hn => ⟨n, hn, le_rfl, by simp [InitPools]⟩
  | k + 1, n, _, hn => by
    have h3 : 3 ≤ n - (n >>> 2) := by rw [Nat.shiftRight_eq_div_pow]; omega
    obtain ⟨n', h₁, h₂, h⟩ := initPools_pools pass k (n - (n >>> 2)) _ h3
    exact ⟨n', h₁, h₂.trans (Nat.sub_le _ _), h⟩

end Capacity

/-- **Every pool `InitPools` builds is a sound bump allocator.** For a total size of at least 3
below `2 ^ 64`, one thread or more, and outside the wrap-around input of one thread and
`SIZE_MAX`, whatever the `bad_alloc` retries, each pool of the pass has even, positive
capacity; and after every sequence of `Allocate` and `Reset` calls on it the capacity is the
same, the cursor is even and within it, and the slots handed out since the last `Reset` are
distinct and lie below the cursor: none is handed out twice, none past the end. -/
theorem initPools_pool_sound (hT : 1 ≤ numThreads) (pass : Bool) (k n : Nat) (hn : 3 ≤ n)
    (hlt : n < 2 ^ 64) (hwrap : ¬ (numThreads = 1 ∧ n = 2 ^ 64 - 1)) (s : PoolStatics) :
    ∀ p ∈ (InitPools numThreads pass k n s).pools pass,
      p.size % 2 = 0 ∧ 0 < p.size ∧ ∀ cs : List PoolCall,
        (p.run cs []).1.size = p.size ∧ (p.run cs []).1.Inv ∧ (p.run cs []).2.Nodup ∧
          ∀ i ∈ (p.run cs []).2, i < (p.run cs []).1.nextTriNodeIdx := by
  obtain ⟨n', h₁, h₂, h⟩ := initPools_pools pass k n s hn
  have hcap := thrPoolCapacity_even_pos hT h₁ (by omega) fun e => hwrap ⟨e.1, by omega⟩
  intro p hp
  rw [h, List.mem_replicate] at hp
  obtain ⟨-, rfl⟩ := hp
  have h₀ : CTriNodePool.Handed { size := thrPoolCapacity numThreads n' } [] :=
    ⟨⟨hcap.1, rfl, Nat.zero_le _⟩, List.nodup_nil, List.forall_mem_nil _⟩
  refine ⟨hcap.1, hcap.2, fun cs => ?_⟩
  obtain ⟨⟨hinv, hnd, hlt'⟩, hs⟩ := CTriNodePool.Handed.run cs h₀
  exact ⟨hs, hinv, hnd, hlt'⟩

/-- Two threads, a build for 12 that throws once and settles at 9: both pools get capacity 4. -/
theorem initPools_pool_sound_retry :
    (1 ≤ 2 ∧ 3 ≤ 12 ∧ 12 < 2 ^ 64 ∧ ¬ (2 = 1 ∧ 12 = 2 ^ 64 - 1)) ∧
      ((InitPools 2 false 1 12 (PoolStatics.init 12)).pools false).map CTriNodePool.size =
        [4, 4] ∧
      ∀ p ∈ (InitPools 2 false 1 12 (PoolStatics.init 12)).pools false,
        p.size % 2 = 0 ∧ 0 < p.size ∧ ∀ cs : List PoolCall,
          (p.run cs []).1.size = p.size ∧ (p.run cs []).1.Inv ∧ (p.run cs []).2.Nodup ∧
            ∀ i ∈ (p.run cs []).2, i < (p.run cs []).1.nextTriNodeIdx :=
  ⟨by decide, by decide,
    initPools_pool_sound 2 (by decide) false 1 12 (by decide) (by decide) (by decide) _⟩

/-! ### `ResetAll` -/

section ResetAll

variable {numThreads} {s : PoolStatics} {pass : Bool}

theorem resetAll_of_grow (hout : (s.pools pass).any CTriNodePool.OutOfNodes)
    (hlt : s.CUR_POOL_SIZE < s.MAX_POOL_SIZE) :
    ResetAll numThreads pass 0 s =
      InitPools numThreads pass 0 (min (s.CUR_POOL_SIZE * 2 % 2 ^ 64) s.MAX_POOL_SIZE)
        { s with pools := Function.update s.pools pass ((s.pools pass).map CTriNodePool.Reset) } := by
  simp [ResetAll, hout, Nat.not_le.mpr hlt]

/-- **The growth step of `ResetAll`**: the pass's pools are rebuilt for
`min(2·CUR_POOL_SIZE, MAX_POOL_SIZE)`, strictly more than `CUR_POOL_SIZE` and at most
`MAX_POOL_SIZE`, and the other pass's pools are untouched. -/
theorem resetAll_grow_spec (hout : (s.pools pass).any CTriNodePool.OutOfNodes)
    (hlt : s.CUR_POOL_SIZE < s.MAX_POOL_SIZE) (hcur : 1 ≤ s.CUR_POOL_SIZE)
    (hmax : s.MAX_POOL_SIZE < 2 ^ 63) :
    let s' := ResetAll numThreads pass 0 s
    s'.CUR_POOL_SIZE = min (2 * s.CUR_POOL_SIZE) s.MAX_POOL_SIZE ∧
      s.CUR_POOL_SIZE < s'.CUR_POOL_SIZE ∧ s'.CUR_POOL_SIZE ≤ s'.MAX_POOL_SIZE ∧
      s'.MAX_POOL_SIZE = s.MAX_POOL_SIZE ∧ s'.requested pass = s'.CUR_POOL_SIZE ∧
      s'.pools pass =
        List.replicate numThreads { size := thrPoolCapacity numThreads s'.CUR_POOL_SIZE } ∧
      s'.pools (!pass) = s.pools (!pass) := by
  rw [resetAll_of_grow hout hlt, Nat.mod_eq_of_lt (by omega)]
  simp only [InitPools, Function.update_same, Bool.not_ne_self, ne_eq, not_false_eq_true,
    Function.update_noteq, and_true]
  omega

end ResetAll

/-! ### Runs -/

section Runs

variable {numThreads} {NEW_POOL_SIZE : Nat}

/-- What every run without `bad_alloc` keeps: `MAX_POOL_SIZE` is still its startup value, and
`CUR_POOL_SIZE` is positive once a pass has pools. -/
def RunInv (NEW_POOL_SIZE : Nat) (s : PoolStatics) : Prop :=
  s.MAX_POOL_SIZE = NEW_POOL_SIZE * 8 % 2 ^ 64 ∧ ∀ pass, s.pools pass ≠ [] → 1 ≤ s.CUR_POOL_SIZE

/-- A build for a positive size. -/
def PoolEvent.Sane : PoolEvent → Prop
  | .initPools _ n => 1 ≤ n
  | _ => True

instance : DecidablePred PoolEvent.Sane := fun e =>
  match e with
  | .initPools _ n => inferInstanceAs (Decidable (1 ≤ n))
  | .resetAll _ => isTrue trivial
  | .allocate _ _ => isTrue trivial

theorem RunInv.apply (hN : NEW_POOL_SIZE * 8 < 2 ^ 63) {s : PoolStatics}
    (h : RunInv NEW_POOL_SIZE s) {e : PoolEvent} (he : e.Sane) :
    RunInv NEW_POOL_SIZE (e.apply numThreads s) := by
  obtain ⟨hmax, hcur⟩ := h
  cases e with
  | initPools pass n => exact ⟨hmax, fun _ _ => he⟩
  | resetAll pass =>
    by_cases hg : (s.pools pass).any CTriNodePool.OutOfNodes ∧ s.CUR_POOL_SIZE < s.MAX_POOL_SIZE
    · have hne : s.pools pass ≠ [] := fun e => by simp [e] at hg
      have hc := hcur pass hne
      refine ⟨by rw [PoolEvent.apply, resetAll_of_grow hg.1 hg.2]; exact hmax, fun _ _ => ?_⟩
      rw [PoolEvent.apply, resetAll_of_grow hg.1 hg.2, InitPools,
        Nat.mod_eq_of_lt (by omega)]
      simp only
      omega
    · have hs : ResetAll numThreads pass 0 s =
          { s with pools := Function.update s.pools pass ((s.pools pass).map CTriNodePool.Reset) } := by
        rw [not_and_or, Nat.not_lt] at hg
        rcases hg with hg | hg
        · simp [ResetAll, hg]
        · simp [ResetAll, hg]
      show RunInv _ (ResetAll numThreads pass 0 s)
      rw [hs]
      refine ⟨hmax, fun q hq => hcur q ?_⟩
      by_cases e : q = pass
      · subst e; simpa using hq
      · simpa [Function.update_noteq e] using hq
  | allocate pass thr =>
    refine ⟨hmax, fun q hq => hcur q ?_⟩
    by_cases e : q = pass
    · subst e
      simpa [PoolEvent.apply, ← List.length_pos, List.length_modify] using hq
    · simpa [PoolEvent.apply, Function.update_noteq e] using hq

theorem runInv_poolRun (hN : NEW_POOL_SIZE * 8 < 2 ^ 63) :
    ∀ (es : List PoolEvent) (s : PoolStatics), RunInv NEW_POOL_SIZE s → (∀ e ∈ es, e.Sane) →
      RunInv NEW_POOL_SIZE (es.foldl (fun s e => e.apply numThreads s) s)
  | [], _, h, _ => h
  | e :: es, _, h, hes =>
    runInv_poolRun hN es _ (h.apply hN (hes e (List.mem_cons_self e es)))
      fun e' he' => hes e' (List.mem_cons_of_mem e he')

/-- **`ResetAll` grows past the shared `CUR_POOL_SIZE`.** In every run without `bad_alloc`
whose builds ask for positive sizes, with `MAX_POOL_SIZE < 2 ^ 63`: when `ResetAll(pass)` finds
a pool of the pass out of nodes while `CUR_POOL_SIZE`, the size last asked for by either
pass, is below `MAX_POOL_SIZE`, it rebuilds the pass's pools for
`min(2·CUR_POOL_SIZE, MAX_POOL_SIZE)`, strictly more than `CUR_POOL_SIZE` and at most
`MAX_POOL_SIZE`, and leaves the other pass's pools as they were. -/
theorem resetAll_grows_past_cur (es : List PoolEvent) (hes : ∀ e ∈ es, e.Sane)
    (hN : NEW_POOL_SIZE * 8 < 2 ^ 63) (pass : Bool) :
    let s := poolRun numThreads NEW_POOL_SIZE es
    (s.pools pass).any CTriNodePool.OutOfNodes → s.CUR_POOL_SIZE < s.MAX_POOL_SIZE →
    let s' := ResetAll numThreads pass 0 s
    s'.CUR_POOL_SIZE = min (2 * s.CUR_POOL_SIZE) s.MAX_POOL_SIZE ∧
      s.CUR_POOL_SIZE < s'.CUR_POOL_SIZE ∧ s'.CUR_POOL_SIZE ≤ s'.MAX_POOL_SIZE ∧
      s'.MAX_POOL_SIZE = s.MAX_POOL_SIZE ∧ s'.requested pass = s'.CUR_POOL_SIZE ∧
      s'.pools pass =
        List.replicate numThreads { size := thrPoolCapacity numThreads s'.CUR_POOL_SIZE } ∧
      s'.pools (!pass) = s.pools (!pass) := by
  intro s hout hlt
  have hinv : RunInv NEW_POOL_SIZE s :=
    runInv_poolRun hN es (PoolStatics.init NEW_POOL_SIZE) ⟨rfl, fun _ h => (h rfl).elim⟩ hes
  obtain ⟨hmax, hcur⟩ := hinv
  have hne : s.pools pass ≠ [] := fun e => by rw [e] at hout; simp at hout
  exact resetAll_grow_spec hout hlt (hcur pass hne) (by rw [hmax, Nat.mod_eq_of_lt (by omega)]; omega)

/-- One pass, two threads, a build for 12 and its first pool used up: `ResetAll` rebuilds for
24. -/
theorem resetAll_grows_past_cur_one_pass :
    let es : List PoolEvent := .initPools false 12 :: List.replicate 3 (.allocate false 0)
    (∀ e ∈ es, e.Sane) ∧ 12 * 8 < 2 ^ 63 ∧
      ((poolRun 2 12 es).pools false).any CTriNodePool.OutOfNodes ∧
      (poolRun 2 12 es).CUR_POOL_SIZE < (poolRun 2 12 es).MAX_POOL_SIZE ∧
      (ResetAll 2 false 0 (poolRun 2 12 es)).CUR_POOL_SIZE = 24 := by
  intro es
  have h₁ : ∀ e ∈ es, e.Sane := by decide
  have h₃ : ((poolRun 2 12 es).pools false).any CTriNodePool.OutOfNodes := by decide
  have h₄ : (poolRun 2 12 es).CUR_POOL_SIZE < (poolRun 2 12 es).MAX_POOL_SIZE := by decide
  exact ⟨h₁, by decide, h₃, h₄,
    (resetAll_grows_past_cur es h₁ (by decide) false h₃ h₄).1.trans (by decide)⟩

/-- With the shadow pass grown to `MAX_POOL_SIZE` first, `ResetAll` of the main pass finds a
pool out of nodes at a requested size of 12, below the maximum 96, and rebuilds nothing. -/
theorem resetAll_main_pass_stalls :
    let s := poolRun 2 12 ([.initPools false 12, .initPools true 12] ++
      List.replicate 3 (.allocate true 0) ++ [.resetAll true] ++
      List.replicate 6 (.allocate true 0) ++ [.resetAll true] ++
      List.replicate 12 (.allocate true 0) ++ [.resetAll true] ++
      List.replicate 3 (.allocate false 0))
    (s.pools false).any CTriNodePool.OutOfNodes ∧ s.requested false = 12 ∧
      s.MAX_POOL_SIZE = 96 ∧ (ResetAll 2 false 0 s).requested false = 12 ∧
      ((ResetAll 2 false 0 s).pools false).map CTriNodePool.size =
        (s.pools false).map CTriNodePool.size := by
  decide

end Runs

/-! ### After a `bad_alloc` -/

section BadAlloc

variable {s : PoolStatics}

/-- Whether an event is an explicit `InitPools` call. -/
def PoolEvent.isInit : PoolEvent → Bool
  | .initPools _ _ => true
  | _ => false

theorem capacities_modify_allocate (ps : List CTriNodePool) (thr : Nat) :
    (ps.modify (fun p => p.Allocate.2) thr).map CTriNodePool.size = ps.map CTriNodePool.size :=
  List.ext_getElem (by simp) fun i _ _ => by
    simp only [List.getElem_map, List.getElem_modify]
    split <;> simp [CTriNodePool.Allocate_size]

theorem initPools_retry_caps (pass : Bool) (k : Nat) : ∀ n s,
    (InitPools numThreads pass (k + 1) n s).MAX_POOL_SIZE =
      (InitPools numThreads pass (k + 1) n s).CUR_POOL_SIZE := by
  induction k with
  | zero => intro n s; rfl
  | succ k ih => intro n s; exact ih _ _

/-- **Once `MAX_POOL_SIZE ≤ CUR_POOL_SIZE`, an event other than `InitPools` rebuilds nothing**:
both statics stay, and every pool of either pass keeps its capacity. -/
theorem PoolEvent.apply_capped (hcap : s.MAX_POOL_SIZE ≤ s.CUR_POOL_SIZE) {e : PoolEvent}
    (he : e.isInit = false) :
    (e.apply numThreads s).CUR_POOL_SIZE = s.CUR_POOL_SIZE ∧
      (e.apply numThreads s).MAX_POOL_SIZE = s.MAX_POOL_SIZE ∧
      ∀ q, ((e.apply numThreads s).pools q).map CTriNodePool.size =
        (s.pools q).map CTriNodePool.size := by
  cases e with
  | initPools => cases he
  | resetAll p =>
    have hs : ResetAll numThreads p 0 s =
        { s with pools := Function.update s.pools p ((s.pools p).map CTriNodePool.Reset) } := by
      simp [ResetAll, hcap]
    refine ⟨by rw [PoolEvent.apply, hs], by rw [PoolEvent.apply, hs], fun q => ?_⟩
    rw [PoolEvent.apply, hs]
    by_cases hq : q = p
    · subst hq; simp [Function.comp_def, CTriNodePool.Reset]
    · simp [Function.update_noteq hq]
  | allocate p thr =>
    refine ⟨rfl, rfl, fun q => ?_⟩
    by_cases hq : q = p
    · subst hq; simp [PoolEvent.apply, capacities_modify_allocate]
    · simp [PoolEvent.apply, Function.update_noteq hq]

theorem foldl_apply_capped : ∀ (es : List PoolEvent) (s : PoolStatics),
    s.MAX_POOL_SIZE ≤ s.CUR_POOL_SIZE → (∀ e ∈ es, e.isInit = false) →
      let s' := es.foldl (fun s e => e.apply numThreads s) s
      s'.CUR_POOL_SIZE = s.CUR_POOL_SIZE ∧ s'.MAX_POOL_SIZE = s.MAX_POOL_SIZE ∧
        ∀ q, (s'.pools q).map CTriNodePool.size = (s.pools q).map CTriNodePool.size
  | [], _, _, _ => ⟨rfl, rfl, fun _ => rfl⟩
  | e :: es, _, hcap, hes =>
    have h := PoolEvent.apply_capped numThreads hcap (hes e (List.mem_cons_self e es))
    have ih := foldl_apply_capped es _ (h.2.1 ▸ h.1 ▸ hcap)
      fun e' he' => hes e' (List.mem_cons_of_mem e he')
    ⟨ih.1.trans h.1, ih.2.1.trans h.2.1, fun q => (ih.2.2 q).trans (h.2.2 q)⟩

/-- **After a build that threw `bad_alloc`, `ResetAll` never grows a pool again** until the
next explicit `InitPools`: the retry leaves `MAX_POOL_SIZE` at the size finally built, so in
every run of `ResetAll` and `Allocate` calls of either pass that follows, however the pools run
out, both statics stay where the build left them and every pool of either pass keeps its
capacity. -/
theorem resetAll_stalls_after_bad_alloc (pass : Bool) (badAllocs newPoolSize : Nat)
    (s : PoolStatics) (es : List PoolEvent) (hes : ∀ e ∈ es, e.isInit = false) :
    let s₀ := InitPools numThreads pass (badAllocs + 1) newPoolSize s
    let s' := es.foldl (fun s e => e.apply numThreads s) s₀
    s'.CUR_POOL_SIZE = s₀.CUR_POOL_SIZE ∧ s'.MAX_POOL_SIZE = s₀.CUR_POOL_SIZE ∧
      ∀ q, (s'.pools q).map CTriNodePool.size = (s₀.pools q).map CTriNodePool.size := by
  intro s₀
  have hcap := initPools_retry_caps numThreads pass badAllocs newPoolSize s
  obtain ⟨h₁, h₂, h₃⟩ := foldl_apply_capped numThreads es s₀ hcap.le hes
  exact ⟨h₁, h₂.trans hcap, h₃⟩

/-- Two threads, a build for 8 that throws once and settles at 6 below the startup
`MAX_POOL_SIZE` of 8, and thread 0's pool used up: `ResetAll` finds it out of nodes and
rebuilds nothing. -/
theorem resetAll_stalls_after_bad_alloc_used_up :
    let s₀ := InitPools 2 false 1 8 (PoolStatics.init 1)
    let es : List PoolEvent := [.allocate false 0, .allocate false 0, .resetAll false]
    (∀ e ∈ es, e.isInit = false) ∧ s₀.CUR_POOL_SIZE = 6 ∧
      (((es.take 2).foldl (fun s e => e.apply 2 s) s₀).pools false).any
        CTriNodePool.OutOfNodes ∧
      ((es.foldl (fun s e => e.apply 2 s) s₀).pools false).map CTriNodePool.size = [4, 4] := by
  intro s₀ es
  have hes : ∀ e ∈ es, e.isInit = false := by decide
  exact ⟨hes, rfl, by decide,
    ((resetAll_stalls_after_bad_alloc 2 false 0 8 (PoolStatics.init 1) es hes).2.2 false).trans
      (by decide)⟩

end BadAlloc

end Pools

end SpringRoam
