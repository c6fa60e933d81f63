import Pvllm.Core.Sched.Retained

/-!
How much a running request holds of a window, or of a recurrent state.

Between steps the tables of a running request are null up to `numSkippedBlocks`, and
not from there on. That boundary is taken from `n - window` tokens, where the next token
reads from `n - window + 1` on: a block that ends right before the window is held one
step longer than it is read. Drafts that were taken back leave blocks behind, which
are held as well.
-/

namespace Pvllm

namespace KVCacheSpec

variable (spec : KVCacheSpec)

def numBlocksInWindow (window : ℕ) : ℕ :=
  (window - 1 + spec.blockSize - 1) / spec.blockSize + 1

variable {spec} {window n k : ℕ}

/-- A full table, none of whose blocks ends right before the window, has room in the
window for one block more. -/
theorem succ_le_of_clear (hkind : spec.kind = .slidingWindow window) (hn : n = k * spec.blockSize)
    (hclear : ∀ i < k, (i + 1) * spec.blockSize + window ≠ n + 1) :
    k + 1 ≤ spec.numSkippedBlocks n + spec.numBlocksInWindow window := by
  have hskip : ∀ {i}, i < spec.numSkippedBlocks n ↔ (i + 1) * spec.blockSize + window ≤ n := by
    intro i
    rw [lt_numSkippedBlocks_iff, hkind]
  have hfirst : ¬ (spec.numSkippedBlocks n + 1) * spec.blockSize + window ≤ n := by
    rw [← hskip]
    exact lt_irrefl _
  have hneed : spec.numBlocksInWindow window = ceilDiv (window - 1) spec.blockSize + 1 := rfl
  rw [hneed]
  by_contra hshort
  have hceil : ceilDiv (window - 1) spec.blockSize ≤ k - (spec.numSkippedBlocks n + 1) := by omega
  rw [ceilDiv_le_iff spec.blockSize_pos, Nat.sub_mul] at hceil
  have hle : (spec.numSkippedBlocks n + 1) * spec.blockSize ≤ k * spec.blockSize :=
    Nat.mul_le_mul_right _ (by omega)
  have hwindow := spec.window_pos window hkind
  have hne := hclear (spec.numSkippedBlocks n) (by omega)
  omega

end KVCacheSpec

variable {H : Type} [DecidableEq H]

/-! ### One table -/

section Table

variable {pool pool' : BlockPool H} {spec : KVCacheSpec} {blocks news : List BlockId} {n : ℕ}

omit [DecidableEq H]

def numHeld (pool : BlockPool H) (blocks : List BlockId) : ℕ :=
  blocks.countP fun b => !(pool.blocks b).isNull

theorem numHeld_congr (hnull : ∀ b, (pool'.blocks b).isNull = (pool.blocks b).isNull) :
    numHeld pool' blocks = numHeld pool blocks := by
  unfold numHeld
  congr 1
  funext b
  rw [hnull]

theorem numHeld_append (hnews : ∀ b ∈ news, (pool.blocks b).isNull = false) :
    numHeld pool (blocks ++ news) = numHeld pool blocks + news.length := by
  unfold numHeld
  rw [List.countP_append, Nat.add_left_cancel_iff, List.countP_eq_length]
  intro b hb
  rw [hnews b hb]
  rfl

theorem numHeld_eq (hspared : Spared pool spec n blocks) (hshed : Shed pool spec n blocks) :
    numHeld pool blocks = blocks.length - spec.numSkippedBlocks n := by
  have hgone : (blocks.take (spec.numSkippedBlocks n)).countP
      (fun b => !(pool.blocks b).isNull) = 0 := by
    rw [List.countP_eq_zero]
    intro b hb
    obtain ⟨i, hi⟩ := List.getElem?_of_mem hb
    obtain ⟨hlt, hi⟩ := getElem?_of_take hi
    rw [hshed i b hi hlt]
    exact Bool.false_ne_true
  have hrest : (blocks.drop (spec.numSkippedBlocks n)).countP
      (fun b => !(pool.blocks b).isNull) = blocks.length - spec.numSkippedBlocks n := by
    rw [← List.length_drop, List.countP_eq_length]
    intro b hb
    obtain ⟨i, hi⟩ := List.getElem?_of_mem hb
    rw [List.getElem?_drop] at hi
    rw [hspared _ b hi (by omega)]
    rfl
  rw [numHeld, ← List.take_append_drop (spec.numSkippedBlocks n) blocks, List.countP_append,
    hgone, Nat.zero_add, List.take_append_drop, hrest]

end Table

namespace KVCacheManager

variable {m m' : KVCacheManager H} {r : RequestId} {n : ℕ}

/-- A group is held within its bound at `n` computed tokens. Of a window: what lies wholly
before the first position the next token reads is null, and with the blocks one more token
needs no more are held than fit in it. Of a recurrent state: what is held is the
block of the last computed position and those behind it. -/
def Bounded (m : KVCacheManager H) (manager : SingleTypeKVCacheManager) (r : RequestId) (n : ℕ) :
    Prop :=
  match manager.kvCacheSpec.kind with
  | .fullAttention => True
  | .slidingWindow window =>
      (∀ i b, (manager.getBlocks r)[i]? = some b →
        (i + 1) * manager.kvCacheSpec.blockSize + window ≤ n + 1 →
          (m.blockPool.blocks b).isNull = true) ∧
      numHeld m.blockPool (manager.getBlocks r) +
          manager.numMissingBlocks r (min (n + 1) m.maxModelLen) ≤
        manager.kvCacheSpec.numBlocksInWindow window
  | .mamba =>
      (∀ i b, (manager.getBlocks r)[i]? = some b → (m.blockPool.blocks b).isNull = false →
        n ≤ (i + 1) * manager.kvCacheSpec.blockSize) ∧
      numHeld m.blockPool (manager.getBlocks r) ≤
        1 + ((manager.getBlocks r).length - ceilDiv n manager.kvCacheSpec.blockSize)

/-- No block of a window's table ends right before the window, and the table is
no longer than what was shed and what fits in the window. -/
def Clear (manager : SingleTypeKVCacheManager) (r : RequestId) (n : ℕ) : Prop :=
  match manager.kvCacheSpec.kind with
  | .slidingWindow window =>
      (∀ i < (manager.getBlocks r).length,
        (i + 1) * manager.kvCacheSpec.blockSize + window ≠ n + 1) ∧
      (manager.getBlocks r).length ≤ manager.kvCacheSpec.numSkippedBlocks n +
        manager.kvCacheSpec.numBlocksInWindow window
  | _ => True

omit [DecidableEq H] in
/-- Between steps a group is held within its bound if and only if it is clear. -/
theorem bounded_iff_clear {count : ℕ} (hkeeps : m.Keeps r n count) (hle : n ≤ count)
    (hspares : m.Spares r n) (hshed : m.HasShed r n) {manager : SingleTypeKVCacheManager}
    (hm : manager ∈ m.singleTypeManagers) : m.Bounded manager r n ↔ Clear manager r n := by
  have hheld := numHeld_eq (hspares manager hm) (hshed manager hm)
  have hcovers := (min_le_min_right m.maxModelLen hle).trans (hkeeps.covers manager hm)
  have hpos := manager.kvCacheSpec.blockSize_pos
  have hskip : ∀ {i}, i < manager.kvCacheSpec.numSkippedBlocks n ↔ _ :=
    manager.kvCacheSpec.lt_numSkippedBlocks_iff
  unfold Bounded Clear
  cases hkind : manager.kvCacheSpec.kind with
  | fullAttention => exact Iff.rfl
  | slidingWindow window =>
      rw [hkind] at hskip
      dsimp only at hskip ⊢
      rw [hheld, SingleTypeKVCacheManager.numMissingBlocks]
      constructor
      · rintro ⟨hnull, hbound⟩
        refine ⟨fun i hi heq => ?_, by omega⟩
        have hsome := List.getElem?_eq_getElem hi
        have hgone := hnull i _ hsome heq.le
        rw [hspares manager hm i _ hsome (by rw [hskip]; omega)] at hgone
        cases hgone
      · rintro ⟨hclear, hlength⟩
        refine ⟨fun i b hb hbefore => ?_, ?_⟩
        · have hi := (List.getElem?_eq_some_iff.mp hb).1
          have hne := hclear i hi
          exact hshed manager hm i b hb (hskip.mpr (by omega))
        · by_cases hroom : ceilDiv (min (n + 1) m.maxModelLen) manager.kvCacheSpec.blockSize ≤
              (manager.getBlocks r).length
          · omega
          · -- the table is full, so the next token takes a block
            have hfull : ¬ min (n + 1) m.maxModelLen ≤
                (manager.getBlocks r).length * manager.kvCacheSpec.blockSize := by
              rwa [← ceilDiv_le_iff hpos]
            have hone : ceilDiv (min (n + 1) m.maxModelLen) manager.kvCacheSpec.blockSize ≤
                (manager.getBlocks r).length + 1 := by
              rw [ceilDiv_le_iff hpos, Nat.succ_mul]
              omega
            have hsucc := KVCacheSpec.succ_le_of_clear hkind (by omega) hclear
            have hle : manager.kvCacheSpec.numSkippedBlocks n ≤ (manager.getBlocks r).length := by
              by_contra hgt
              have hover := hskip.mp (Nat.not_le.mp hgt)
              rw [Nat.succ_mul] at hover
              omega
            omega
  | mamba =>
      rw [hkind] at hskip
      dsimp only at hskip ⊢
      refine iff_of_true ⟨fun i b hb hnull => ?_, ?_⟩ trivial
      · by_contra hlt
        have hgone := hshed manager hm i b hb (hskip.mpr (Nat.not_le.mp hlt))
        rw [hgone] at hnull
        cases hnull
      · rw [hheld]
        have hceil : ceilDiv n manager.kvCacheSpec.blockSize ≤
            manager.kvCacheSpec.numSkippedBlocks n + 1 := by
          rw [ceilDiv_le_iff hpos]
          have hlast := lt_irrefl (manager.kvCacheSpec.numSkippedBlocks n)
          rw [hskip] at hlast
          exact Nat.not_lt.mp hlast
        omega

omit [DecidableEq H] in
theorem counterpart (hs : SameSetup m m') (heq : m'.getBlocks r = m.getBlocks r)
    {manager' : SingleTypeKVCacheManager} (hm' : manager' ∈ m'.singleTypeManagers) :
    ∃ manager ∈ m.singleTypeManagers, manager'.kvCacheSpec = manager.kvCacheSpec ∧
      manager'.getBlocks r = manager.getBlocks r :=
  tables_congr (P := fun spec blocks => ∃ manager ∈ m.singleTypeManagers,
    spec = manager.kvCacheSpec ∧ blocks = manager.getBlocks r) hs heq
    (fun manager hm => ⟨manager, hm, rfl, rfl⟩) manager' hm'

end KVCacheManager

/-- A running request that a call gives slots holds what it held and the blocks it was short
of. -/
theorem Granted.numHeld_eq {s : Scheduler H} {r : RequestId} {n count : ℕ}
    {m : KVCacheManager H} (h : Granted s r (some n) count m)
    (horder : ∃ free, s.kvCacheManager.InOrder free) (hrunning : r ∈ s.running)
    {manager' : SingleTypeKVCacheManager} (hm' : manager' ∈ m.singleTypeManagers) :
    ∃ manager ∈ s.kvCacheManager.singleTypeManagers,
      manager'.kvCacheSpec = manager.kvCacheSpec ∧
      numHeld m.blockPool (manager'.getBlocks r) =
        numHeld s.kvCacheManager.blockPool (manager.getBlocks r) + manager.numMissingBlocks r
          (min ((s.request r).numComputedTokens + n) s.kvCacheManager.maxModelLen) := by
  obtain ⟨free, horder⟩ := horder
  cases h with
  | @grown m₁ m₂ _ request _ blocks hwas hbefore htables hrequest hid hcount hn hok hafter hsame =>
      obtain ⟨⟨free₁, horder₁⟩, hsetup₁⟩ := hbefore
      have hnone : m₁.cachedBlocks (m₁.perGroupCached none) = [] := by
        unfold KVCacheManager.cachedBlocks KVCacheManager.perGroupCached
        rw [KVCacheManager.emptyBlocks_flatten, List.filter_nil]
      rcases KVCacheManager.allocateSlots_ok horder₁
        (by rw [hnone]; exact fun b hb => absurd hb List.not_mem_nil) hok with
        ⟨hfail, -⟩ | ⟨news, free₂, adopted, mid, -, halloc⟩
      · cases hfail
      obtain ⟨-, rfl⟩ := halloc.adopted_eq.resolve_right fun hsome => hsome.1 hnone
      obtain ⟨⟨free', horder'⟩, hsetup'⟩ := hafter
      -- back along the managers the call went through
      obtain ⟨manager₂, hm₂, hspec₂, htable₂⟩ := KVCacheManager.counterpart hsetup' hsame hm'
      obtain ⟨manager₁, hm₁, new, hspec₁, htable₁, hlength, hnews⟩ := halloc.table horder₁ hm₂
      rw [hid] at htable₁ hlength
      obtain ⟨manager, hm, hspec, htable⟩ := KVCacheManager.counterpart hsetup₁ htables hm₁
      refine ⟨manager, hm, hspec₂.trans (hspec₁.trans hspec), ?_⟩
      have hnull := KVCacheManager.isNull_congr horder₁ halloc.order halloc.setup
      have hslots : m₁.numTokensNeedingSlots request n 0 0 =
          min ((s.request r).numComputedTokens + n) s.kvCacheManager.maxModelLen := by
        rw [KVCacheManager.numTokensNeedingSlots, hcount, hsetup₁.maxModelLen, Nat.add_zero,
          Nat.add_zero]
      rw [htable₂, htable₁,
        numHeld_congr (KVCacheManager.isNull_congr halloc.order horder' hsetup'),
        numHeld_append hnews, hlength, htable, numHeld_congr hnull,
        numHeld_congr (KVCacheManager.isNull_congr horder horder₁ hsetup₁),
        SingleTypeKVCacheManager.numMissingBlocks, SingleTypeKVCacheManager.numMissingBlocks,
        htable, hspec, hslots]
  | entered hwaiting hnew hbefore hrequest hid hcount hidle hhits hn hok hafter hsame =>
      exact absurd hrunning hnew

namespace Engine

/-! ### Over runs -/

/-- In every run, for a running request between steps: a group is held within its bound if
and only if it is clear; and after a step of one more token the request holds what it held
and the blocks one more token was short of, so no more of a window than fits in it where
the group was clear. -/
theorem run_bounded_iff {config : SchedulerConfig} {kvCacheConfig : KVCacheConfig}
    {enableCaching : Bool} {hashFn : HashInput H → H} {seed : ℕ}
    {connector : Option (SimSharedStoreConnector H)} {s₀ s : Scheduler H} {events : List Event}
    (hinit : Scheduler.init config kvCacheConfig enableCaching hashFn seed connector = .ok s₀)
    (hrun : Run Step ⟨s₀, none⟩ events ⟨s, none⟩) {r : RequestId} (hr : r ∈ s.running) :
    (∀ manager ∈ s.kvCacheManager.singleTypeManagers,
      s.kvCacheManager.Bounded manager r (s.request r).numComputedTokens ↔
        KVCacheManager.Clear manager r (s.request r).numComputedTokens) ∧
    ∀ output s', s.schedule = .ok (output, s') → r ∈ s'.running →
      output.numScheduledTokens.find r = some 1 →
      ∀ manager' ∈ s'.kvCacheManager.singleTypeManagers,
        ∃ manager ∈ s.kvCacheManager.singleTypeManagers,
          manager'.kvCacheSpec = manager.kvCacheSpec ∧
          numHeld s'.kvCacheManager.blockPool (manager'.getBlocks r) =
            numHeld s.kvCacheManager.blockPool (manager.getBlocks r) + manager.numMissingBlocks r
              (min ((s.request r).numComputedTokens + 1) s.kvCacheManager.maxModelLen) ∧
          ∀ window, manager'.kvCacheSpec.kind = .slidingWindow window →
            KVCacheManager.Clear manager r (s.request r).numComputedTokens →
              numHeld s'.kvCacheManager.blockPool (manager'.getBlocks r) ≤
                manager'.kvCacheSpec.numBlocksInWindow window := by
  have hpaced := run_paced hrun (init_paced hinit)
  have hretaining := run_retaining hinit hrun
  have hpart := hpaced.settled.partition
  have hstanding : s.kvCacheManager.Standing r ((s.request r).numComputedTokens - 0)
      (s.request r).numComputedTokens := hretaining.standing r hr
  rw [Nat.sub_zero] at hstanding
  have hiff : ∀ manager ∈ s.kvCacheManager.singleTypeManagers, _ := fun manager hm =>
    KVCacheManager.bounded_iff_clear hstanding.keeps le_rfl (hstanding.spares rfl)
      (hretaining.shed rfl r hr) hm
  refine ⟨hiff, fun output s' hok hr' hfind manager' hm' => ?_⟩
  obtain ⟨count, hgranted, -⟩ := Scheduler.schedule_granted hpart hok r hr'
  rw [hfind] at hgranted
  obtain ⟨manager, hm, hspec, hheld⟩ := hgranted.numHeld_eq hpart.order hr hm'
  refine ⟨manager, hm, hspec, hheld, fun window hkind hclear => ?_⟩
  have hbounded := (hiff manager hm).mpr hclear
  unfold KVCacheManager.Bounded at hbounded
  rw [← hspec, hkind] at hbounded
  rw [hheld]
  exact hbounded.2

def windowTables (s : Scheduler Digest) (r : RequestId) :
    List (KVCacheKind × ℕ × List BlockId × ℕ) :=
  s.kvCacheManager.singleTypeManagers.map fun manager => (manager.kvCacheSpec.kind,
    manager.kvCacheSpec.blockSize, manager.getBlocks r,
    numHeld s.kvCacheManager.blockPool (manager.getBlocks r))

theorem exists_of_windowTables {s : Scheduler Digest} {r : RequestId} {i : ℕ} {kind : KVCacheKind}
    {blockSize held : ℕ} {blocks : List BlockId}
    (h : (windowTables s r)[i]? = some (kind, blockSize, blocks, held)) :
    ∃ manager ∈ s.kvCacheManager.singleTypeManagers, manager.kvCacheSpec.kind = kind ∧
      manager.kvCacheSpec.blockSize = blockSize ∧ manager.getBlocks r = blocks ∧
      numHeld s.kvCacheManager.blockPool blocks = held := by
  unfold windowTables at h
  rw [List.getElem?_map] at h
  obtain ⟨manager, hm, heq⟩ := Option.map_eq_some_iff.mp h
  simp only [Prod.mk.injEq] at heq
  obtain ⟨hkind, hsize, hblocks, hheld⟩ := heq
  exact ⟨manager, List.mem_of_getElem? hm, hkind, hsize, hblocks, hblocks ▸ hheld⟩

/-- With five tokens computed, a window of three is held within its bound. -/
theorem run_bounded_clear : ∃ (s : Scheduler Digest) (manager : SingleTypeKVCacheManager),
    manager ∈ s.kvCacheManager.singleTypeManagers ∧
      manager.kvCacheSpec.kind = .slidingWindow 3 ∧ manager.getBlocks 1 = [0, 5, 6] ∧
      s.kvCacheManager.Bounded manager 1 5 := by
  obtain ⟨⟨s₀, request, output, s₁, outputs, s₂⟩, hrun, hcheck⟩ :=
    exists_of_okAnd (x := windowRun [1, 2, 3, 4, 5])
      (p := fun (_, _, output, s₁, _, s₂) =>
        decide (Answers s₁ output (answerOne 1 [7] [])) &&
        decide (s₂.running = [1] ∧ (s₂.request 1).numComputedTokens = 5 ∧
          (windowTables s₂ 1)[1]? = some (.slidingWindow 3, 2, [0, 5, 6], 2)))
      (by decide +kernel)
  rw [Bool.and_eq_true, decide_eq_true_eq, decide_eq_true_eq] at hcheck
  obtain ⟨hanswers, hrunning, hcount, htables⟩ := hcheck
  obtain ⟨hinit, hsteps⟩ := windowRun_reaches hrun hanswers
  obtain ⟨manager, hm, hkind, hsize, hblocks, -⟩ := exists_of_windowTables htables
  have hiff := (run_bounded_iff hinit hsteps (r := 1) (hrunning ▸ List.mem_cons_self)).1 manager hm
  rw [hcount] at hiff
  refine ⟨s₂, manager, hm, hkind, hblocks, hiff.mpr ?_⟩
  unfold KVCacheManager.Clear KVCacheSpec.numSkippedBlocks KVCacheSpec.getNumSkippedTokens
    KVCacheSpec.numBlocksInWindow
  rw [hkind, hsize, hblocks]
  decide

/-- With four tokens computed, the next token reads from position two on; the block of
the two positions before is held, and with the next token three blocks are, where two
fit in the window. -/
theorem run_window_held_late : ∃ (s₀ s s' : Scheduler Digest) (events : List Event)
    (output : SchedulerOutput) (manager manager' : SingleTypeKVCacheManager),
    Scheduler.init (Scheduler.shortConfig .fcfs) windowConfig true Digest.hash 0 none = .ok s₀ ∧
      Run Step ⟨s₀, none⟩ events ⟨s, none⟩ ∧ 1 ∈ s.running ∧
      (s.request 1).numComputedTokens = 4 ∧
      manager ∈ s.kvCacheManager.singleTypeManagers ∧
      manager.kvCacheSpec.kind = .slidingWindow 3 ∧ manager.kvCacheSpec.blockSize = 2 ∧
      manager.getBlocks 1 = [3, 4] ∧ (s.kvCacheManager.blockPool.blocks 3).isNull = false ∧
      ¬ s.kvCacheManager.Bounded manager 1 4 ∧ s.schedule = .ok (output, s') ∧
      output.numScheduledTokens.find 1 = some 1 ∧
      manager' ∈ s'.kvCacheManager.singleTypeManagers ∧
      manager'.kvCacheSpec.kind = .slidingWindow 3 ∧
      numHeld s'.kvCacheManager.blockPool (manager'.getBlocks 1) = 3 ∧
      manager'.kvCacheSpec.numBlocksInWindow 3 = 2 := by
  obtain ⟨⟨s₀, request, output, s₁, outputs, s₂⟩, hrun, hcheck⟩ :=
    exists_of_okAnd (x := windowRun [1, 2, 3, 4])
      (p := fun (_, _, output, s₁, _, s₂) =>
        decide (Answers s₁ output (answerOne 1 [7] [])) &&
        decide (s₂.running = [1] ∧ (s₂.request 1).numComputedTokens = 4 ∧
          (windowTables s₂ 1)[1]? = some (.slidingWindow 3, 2, [3, 4], 2) ∧
          (s₂.kvCacheManager.blockPool.blocks 3).isNull = false) &&
        okAnd s₂.schedule fun next =>
          decide (next.1.numScheduledTokens.find 1 = some 1 ∧
            (windowTables next.2 1)[1]? = some (.slidingWindow 3, 2, [3, 4, 8], 3)))
      (by decide +kernel)
  rw [Bool.and_eq_true, Bool.and_eq_true, decide_eq_true_eq, decide_eq_true_eq] at hcheck
  obtain ⟨⟨hanswers, hrunning, hcount, htables, hnull⟩, hnext⟩ := hcheck
  obtain ⟨⟨output', s₃⟩, hschedule, hafter⟩ := exists_of_okAnd hnext
  obtain ⟨hfind, htables'⟩ := of_decide_eq_true hafter
  obtain ⟨hinit, hsteps⟩ := windowRun_reaches hrun hanswers
  obtain ⟨manager, hm, hkind, hsize, hblocks, -⟩ := exists_of_windowTables htables
  obtain ⟨manager', hm', hkind', hsize', hblocks', hheld'⟩ := exists_of_windowTables htables'
  refine ⟨s₀, s₂, s₃, _, output', manager, manager', hinit, hsteps, hrunning ▸ List.mem_cons_self,
    hcount, hm, hkind, hsize, hblocks, hnull, fun hbounded => ?_, hschedule, hfind, hm', hkind',
    hblocks' ▸ hheld', ?_⟩
  · unfold KVCacheManager.Bounded at hbounded
    rw [hkind, hsize, hblocks] at hbounded
    have hgone := hbounded.1 0 3 rfl (by decide)
    rw [hnull] at hgone
    cases hgone
  · rw [KVCacheSpec.numBlocksInWindow, hsize']

end Engine

end Pvllm
