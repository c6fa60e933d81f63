import Pvllm.Core.Adoption

/-!
Which blocks of a table are kept.

Once `n` tokens are computed, the next one reads, in a group with a window, the
`window - 1` positions before it, and in a state-space group the state after the last of
them. `Attends` is a block that holds one of these, or comes behind. Shedding at `n`
takes blocks that are not attended to at `n` only, and a hit has null entries only there,
so a table that keeps what is attended to at some count keeps it at every later one.
-/

namespace Pvllm

namespace KVCacheSpec

variable (spec : KVCacheSpec) {n n' i : ℕ}

/-- The block at `i` holds a position that the token after `n` computed ones reads, or
comes behind such a block. -/
def Attends (n i : ℕ) : Prop :=
  match spec.kind with
  | .fullAttention => True
  | .slidingWindow window => n + 1 < (i + 1) * spec.blockSize + window
  | .mamba => n ≤ (i + 1) * spec.blockSize

/-- How many leading blocks are shed once `n` tokens are computed. -/
def numSkippedBlocks (n : ℕ) : ℕ := spec.getNumSkippedTokens n / spec.blockSize

theorem lt_numSkippedBlocks_iff :
    i < spec.numSkippedBlocks n ↔ match spec.kind with
      | .fullAttention => False
      | .slidingWindow window => (i + 1) * spec.blockSize + window ≤ n
      | .mamba => (i + 1) * spec.blockSize < n := by
  have hpos : 0 < (i + 1) * spec.blockSize := Nat.mul_pos (Nat.succ_pos i) spec.blockSize_pos
  unfold numSkippedBlocks getNumSkippedTokens
  rw [← Nat.succ_le_iff, Nat.succ_eq_add_one, Nat.le_div_iff_mul_le spec.blockSize_pos]
  cases spec.kind with
  | fullAttention => exact ⟨fun h => absurd hpos (Nat.not_lt.mpr h), fun h => h.elim⟩
  | slidingWindow window =>
      show (i + 1) * spec.blockSize ≤ n - window ↔ _
      omega
  | mamba =>
      show (i + 1) * spec.blockSize ≤ n - 1 ↔ _
      omega

/-- Nothing that is attended to is shed. -/
theorem Attends.not_skipped (h : spec.Attends n i) : ¬ i < spec.numSkippedBlocks n := by
  rw [lt_numSkippedBlocks_iff]
  unfold Attends at h
  cases hkind : spec.kind with
  | fullAttention => exact id
  | slidingWindow window =>
      rw [hkind] at h
      dsimp only at h ⊢
      omega
  | mamba =>
      rw [hkind] at h
      dsimp only at h ⊢
      omega

theorem skipped_of_not_attends (h : ¬ spec.Attends n i) (hlt : n < n') :
    i < spec.numSkippedBlocks n' := by
  rw [lt_numSkippedBlocks_iff]
  unfold Attends at h
  cases hkind : spec.kind with
  | fullAttention =>
      rw [hkind] at h
      exact h trivial
  | slidingWindow window =>
      rw [hkind] at h
      dsimp only at h ⊢
      omega
  | mamba =>
      rw [hkind] at h
      dsimp only at h ⊢
      omega

variable {spec}

theorem attends_of_full (hfull : spec.isFullAttention = true) : spec.Attends n i := by
  unfold Attends
  rw [show spec.kind = .fullAttention from of_decide_eq_true hfull]
  trivial

theorem numSkippedBlocks_of_full (hfull : spec.isFullAttention = true) :
    spec.numSkippedBlocks n = 0 := by
  unfold numSkippedBlocks getNumSkippedTokens
  rw [show spec.kind = .fullAttention from of_decide_eq_true hfull]
  exact Nat.zero_div _

theorem Attends.anti (h : spec.Attends n' i) (hle : n ≤ n') : spec.Attends n i := by
  unfold Attends at *
  cases hkind : spec.kind with
  | fullAttention => trivial
  | slidingWindow window =>
      rw [hkind] at h
      exact lt_of_le_of_lt (Nat.succ_le_succ hle) h
  | mamba =>
      rw [hkind] at h
      exact hle.trans h

end KVCacheSpec

variable {H : Type} [DecidableEq H]

/-! ### One table -/

section Table

variable {pool pool' : BlockPool H} {spec : KVCacheSpec} {blocks news : List BlockId} {n n' : ℕ}

omit [DecidableEq H]

/-- What is attended to is a block. -/
def Kept (pool : BlockPool H) (spec : KVCacheSpec) (n : ℕ) (blocks : List BlockId) : Prop :=
  ∀ i b, blocks[i]? = some b → spec.Attends n i → (pool.blocks b).isNull = false

/-- No block is gone but those that shedding at `n` takes. -/
def Spared (pool : BlockPool H) (spec : KVCacheSpec) (n : ℕ) (blocks : List BlockId) : Prop :=
  ∀ i b, blocks[i]? = some b → ¬ i < spec.numSkippedBlocks n → (pool.blocks b).isNull = false

/-- Everything that shedding at `n` takes is gone. -/
def Shed (pool : BlockPool H) (spec : KVCacheSpec) (n : ℕ) (blocks : List BlockId) : Prop :=
  ∀ i b, blocks[i]? = some b → i < spec.numSkippedBlocks n → (pool.blocks b).isNull = true

theorem Kept.nil : Kept pool spec n [] := fun i b hb => by simp at hb

theorem Kept.mono (h : Kept pool spec n blocks) (hle : n ≤ n') : Kept pool spec n' blocks :=
  fun i b hb hattends => h i b hb (hattends.anti hle)

theorem Spared.kept (h : Spared pool spec n blocks) : Kept pool spec n blocks :=
  fun i b hb hattends => h i b hb hattends.not_skipped

/-- A table that keeps what is attended to spares what is not shed a token later. -/
theorem Kept.spared (h : Kept pool spec n blocks) (hlt : n < n') : Spared pool spec n' blocks := by
  intro i b hb hnot
  refine h i b hb ?_
  by_contra hattends
  exact hnot (spec.skipped_of_not_attends hattends hlt)

/-- New blocks go behind. -/
theorem Kept.append (h : Kept pool spec n blocks)
    (hnews : ∀ b ∈ news, (pool.blocks b).isNull = false) : Kept pool spec n (blocks ++ news) := by
  intro i b hb hattends
  rw [List.getElem?_append] at hb
  split at hb
  · exact h i b hb hattends
  · exact hnews b (List.mem_of_getElem? hb)

theorem Kept.congr (h : Kept pool spec n blocks)
    (hnull : ∀ b, (pool'.blocks b).isNull = (pool.blocks b).isNull) : Kept pool' spec n blocks :=
  fun i b hb hattends => (hnull b).trans (h i b hb hattends)

theorem Spared.congr (h : Spared pool spec n blocks)
    (hnull : ∀ b, (pool'.blocks b).isNull = (pool.blocks b).isNull) : Spared pool' spec n blocks :=
  fun i b hb hnot => (hnull b).trans (h i b hb hnot)

theorem Shed.congr (h : Shed pool spec n blocks)
    (hnull : ∀ b, (pool'.blocks b).isNull = (pool.blocks b).isNull) : Shed pool' spec n blocks :=
  fun i b hb hi => (hnull b).trans (h i b hb hi)

/-- Shedding spares what it does not take, and leaves nothing of the rest. -/
theorem Spared.shed {nullBlock : BlockId} {k : ℕ} (h : Spared pool spec n blocks)
    (hk : k = min (spec.numSkippedBlocks n) blocks.length)
    (hnull : k ≠ 0 → (pool.blocks nullBlock).isNull = true) :
    Spared pool spec n (List.replicate k nullBlock ++ blocks.drop k) ∧
      Shed pool spec n (List.replicate k nullBlock ++ blocks.drop k) := by
  have hat : ∀ i b, (List.replicate k nullBlock ++ blocks.drop k)[i]? = some b →
      i < k ∧ b = nullBlock ∨ k ≤ i ∧ blocks[i]? = some b := by
    intro i b hb
    rw [List.getElem?_append, List.length_replicate] at hb
    split at hb
    · rename_i hi
      rw [List.getElem?_replicate, if_pos hi] at hb
      exact Or.inl ⟨hi, (Option.some.inj hb).symm⟩
    · rename_i hi
      rw [List.getElem?_drop, Nat.add_sub_cancel' (Nat.not_lt.mp hi)] at hb
      exact Or.inr ⟨Nat.not_lt.mp hi, hb⟩
  refine ⟨fun i b hb hnot => ?_, fun i b hb hi => ?_⟩
  · rcases hat i b hb with ⟨hi, -⟩ | ⟨-, hb⟩
    · exact absurd (hi.trans_le (hk ▸ Nat.min_le_left ..)) hnot
    · exact h i b hb hnot
  · rcases hat i b hb with ⟨hi', rfl⟩ | ⟨hle, hb⟩
    · exact hnull (by omega)
    · have hlen := (List.getElem?_eq_some_iff.mp hb).1
      omega

end Table

/-! ### Hits -/

section Hits

variable {pool : BlockPool H} {groupId : ℕ} {blockHashes : List H} {spec : KVCacheSpec}

theorem slidingWindowScan_filled (hnull : NullFree pool) {needed : ℕ} {computed : List BlockId}
    {contiguous index : ℕ} {blocks : List BlockId} (hlen : index + contiguous ≤ computed.length)
    (hrun : ∀ i b, computed[i]? = some b → index ≤ i → i < index + contiguous →
      (pool.blocks b).isNull = false)
    (h : slidingWindowScan pool groupId blockHashes needed computed contiguous index =
      .ok blocks) :
    ∀ i b, blocks[i]? = some b → blocks.length ≤ i + needed → (pool.blocks b).isNull = false := by
  induction index generalizing computed contiguous with
  | zero =>
      obtain rfl := Except.ok.inj h
      intro i b hb _
      obtain ⟨hi, hb⟩ := getElem?_of_take hb
      exact hrun i b hb (Nat.zero_le i) (by omega)
  | succ index ih =>
      unfold slidingWindowScan at h
      split at h
      · cases h
      rename_i blockHash hhash
      split at h
      · exact ih (by omega) (fun i b _ hi hi' => by omega) h
      rename_i cached hcached
      have hlen' : (computed.set index cached).length = computed.length := List.length_set ..
      have hrun' : ∀ i b, (computed.set index cached)[i]? = some b → index ≤ i →
          i < index + (contiguous + 1) → (pool.blocks b).isNull = false := by
        intro i b hb hi hi'
        rcases Nat.eq_or_lt_of_le hi with rfl | hgt
        · rw [List.getElem?_set_self (by omega), Option.some.injEq] at hb
          exact hb ▸ hnull.cached_not_null _ _ _ hcached
        · rw [List.getElem?_set_ne (by omega)] at hb
          exact hrun i b hb hgt (by omega)
      split at h
      · rename_i henough
        obtain rfl := Except.ok.inj h
        intro i b hb hi
        rw [List.length_take, hlen', Nat.min_eq_left (by omega)] at hi
        obtain ⟨hlt, hb⟩ := getElem?_of_take hb
        exact hrun' i b hb (by omega) hlt
      · exact ih (by omega) hrun' h

theorem findLongestCacheHit_kept (hnull : NullFree pool) {maxLength found : ℕ}
    {blocks : List BlockId}
    (h : findLongestCacheHit pool groupId spec blockHashes maxLength = .ok (blocks, found)) :
    Kept pool spec (blocks.length * spec.blockSize) blocks := by
  intro i b hb hattends
  have hi := (List.getElem?_eq_some_iff.mp hb).1
  unfold findLongestCacheHit at h
  unfold KVCacheSpec.Attends at hattends
  dsimp only at h
  cases hkind : spec.kind with
  | fullAttention =>
      rw [hkind] at h
      obtain ⟨rfl, -⟩ := Prod.mk.inj (Except.ok.inj h)
      exact cachedAt_not_null hnull ((fullAttentionScan_spec pool groupId _).1 i b hb)
  | slidingWindow window =>
      rw [hkind] at h hattends
      dsimp only at h hattends
      split at h
      · cases h
      split at h
      · cases h
      rename_i computed hscan
      obtain ⟨rfl, -⟩ := Prod.mk.inj (Except.ok.inj h)
      refine slidingWindowScan_filled hnull ?_ (fun i b _ hi hi' => by omega) hscan i b hb ?_
      · rw [List.length_replicate]
        exact le_rfl
      · have hneed := ceilDiv_le_iff (n := window - 1) (k := computed.length - (i + 1))
          spec.blockSize_pos
        have hsub : (computed.length - (i + 1)) * spec.blockSize =
            computed.length * spec.blockSize - (i + 1) * spec.blockSize := Nat.sub_mul ..
        have hle : (i + 1) * spec.blockSize ≤ computed.length * spec.blockSize :=
          Nat.mul_le_mul_right _ hi
        by_contra hshort
        have hceil : ceilDiv (window - 1) spec.blockSize ≤ computed.length - (i + 1) := by omega
        have hreach := hneed.mp hceil
        have hwindow := spec.window_pos window hkind
        omega
  | mamba =>
      rw [hkind] at h hattends
      dsimp only at h hattends
      split at h
      · cases h
      rename_i nullBlock hnb
      split at h
      · cases h
      rename_i computed hscan
      obtain ⟨rfl, -⟩ := Prod.mk.inj (Except.ok.inj h)
      -- only the newest state is attended to
      have hlast : i + 1 = computed.length := by
        have hle := Nat.le_of_mul_le_mul_right hattends spec.blockSize_pos
        omega
      refine mambaScan_last hnull hscan b ?_
      rw [List.getLast?_eq_getElem?, ← hlast]
      exact hb

end Hits

/-! ### The tables of a request -/

namespace KVCacheManager

variable {m m' : KVCacheManager H} {free free' : List BlockId} {request : Request H}
  {r : RequestId} {n n' count count' k : ℕ} {hits : List (List BlockId)}

/-- The null block stays the null block. -/
theorem isNull_congr (h : m.InOrder free) (h' : m'.InOrder free') (hs : SameSetup m m')
    (b : BlockId) : (m'.blockPool.blocks b).isNull = (m.blockPool.blocks b).isNull := by
  rw [Bool.eq_iff_iff, h'.books.wf.isNull_iff, h.books.wf.isNull_iff, hs.frame.nullBlock]

omit [DecidableEq H] in
/-- What holds of the tables of a request holds as long as these are the same. -/
theorem tables_congr {P : KVCacheSpec → List BlockId → Prop} (hs : SameSetup m m')
    (heq : m'.getBlocks r = m.getBlocks r)
    (h : ∀ manager ∈ m.singleTypeManagers, P manager.kvCacheSpec (manager.getBlocks r)) :
    ∀ manager ∈ m'.singleTypeManagers, P manager.kvCacheSpec (manager.getBlocks r) := by
  intro manager' hm
  obtain ⟨i, hi, rfl⟩ := List.mem_iff_getElem.mp hm
  have hlen := congrArg List.length heq
  simp only [getBlocks, List.length_map] at hlen
  have hspecs := congrArg (fun l => l[i]?) hs.groups
  have htables := congrArg (fun l => l[i]?) heq
  simp only [groups, getBlocks, List.getElem?_map, List.getElem?_eq_getElem hi,
    List.getElem?_eq_getElem (hlen ▸ hi), Option.map_some, Option.some.injEq,
    Prod.mk.injEq] at hspecs htables
  rw [hspecs.2, htables]
  exact h _ (List.getElem_mem _)

/-- The tables of a request keep what is attended to at `n`, and reach to `count`
tokens, or to the length cap. -/
structure Keeps (m : KVCacheManager H) (r : RequestId) (n count : ℕ) : Prop where
  kept : ∀ manager ∈ m.singleTypeManagers,
    Kept m.blockPool manager.kvCacheSpec n (manager.getBlocks r)
  covers : ∀ manager ∈ m.singleTypeManagers,
    min count m.maxModelLen ≤ (manager.getBlocks r).length * manager.kvCacheSpec.blockSize

/-- Nothing is gone from the tables of a request but what shedding at `n` takes. -/
def Spares (m : KVCacheManager H) (r : RequestId) (n : ℕ) : Prop :=
  ∀ manager ∈ m.singleTypeManagers,
    Spared m.blockPool manager.kvCacheSpec n (manager.getBlocks r)

/-- All that shedding at `n` takes is gone from the tables of a request. -/
def HasShed (m : KVCacheManager H) (r : RequestId) (n : ℕ) : Prop :=
  ∀ manager ∈ m.singleTypeManagers,
    Shed m.blockPool manager.kvCacheSpec n (manager.getBlocks r)

omit [DecidableEq H] in
theorem Keeps.mono (h : m.Keeps r n count) (hn : n ≤ n') (hcount : count' ≤ count) :
    m.Keeps r n' count' :=
  ⟨fun manager hm => (h.kept manager hm).mono hn, fun manager hm =>
    (min_le_min_right _ hcount).trans (h.covers manager hm)⟩

section Congr

variable (h : m.InOrder free) (h' : m'.InOrder free') (hs : SameSetup m m')
  (heq : m'.getBlocks r = m.getBlocks r)
include h h' hs heq

theorem Keeps.congr (hkeeps : m.Keeps r n count) : m'.Keeps r n count := by
  refine ⟨fun manager hm => ?_, ?_⟩
  · exact (tables_congr (P := fun spec => Kept m.blockPool spec n)
      hs heq hkeeps.kept manager hm).congr (isNull_congr h h' hs)
  · rw [hs.maxModelLen]
    exact tables_congr (P := fun spec blocks =>
      min count m.maxModelLen ≤ blocks.length * spec.blockSize) hs heq hkeeps.covers

theorem Spares.congr (hspares : m.Spares r n) : m'.Spares r n := fun manager hm =>
  (tables_congr (P := fun spec => Spared m.blockPool spec n) hs heq hspares manager hm).congr
    (isNull_congr h h' hs)

theorem HasShed.congr (hshed : m.HasShed r n) : m'.HasShed r n := fun manager hm =>
  (tables_congr (P := fun spec => Shed m.blockPool spec n) hs heq hshed manager hm).congr
    (isNull_congr h h' hs)

end Congr

/-! ### Allocation -/

/-- A table after an allocation: as many blocks behind it as it was short of, and none of
them null. -/
theorem Allocates.table {news : List (List BlockId)} {numTokens : ℕ} {published : Option ℕ}
    {adopted : List SingleTypeKVCacheManager} {mid : BlockPool H} (h : m.InOrder free)
    (halloc : Allocates m m' free free' request hits news numTokens published adopted mid)
    {manager' : SingleTypeKVCacheManager} (hm : manager' ∈ m'.singleTypeManagers) :
    ∃ manager ∈ adopted, ∃ new, manager'.kvCacheSpec = manager.kvCacheSpec ∧
      manager'.getBlocks request.requestId = manager.getBlocks request.requestId ++ new ∧
      new.length = manager.numMissingBlocks request.requestId numTokens ∧
      ∀ b ∈ new, (m'.blockPool.blocks b).isNull = false := by
  rw [halloc.managers_eq] at hm
  obtain ⟨i, hi, rfl⟩ := List.mem_iff_getElem.mp hm
  rw [List.length_zipWith, lt_min_iff] at hi
  have hlength := congrArg (fun l => l[i]?) halloc.news_length
  simp only [List.getElem?_map, List.getElem?_eq_getElem hi.1, List.getElem?_eq_getElem hi.2,
    Option.map_some, Option.some.injEq] at hlength
  rw [List.getElem_zipWith]
  refine ⟨adopted[i], List.getElem_mem hi.1, news[i], rfl, by simp, hlength, fun b hb => ?_⟩
  have hflat : b ∈ news.flatten := List.mem_flatten.mpr ⟨_, List.getElem_mem hi.2, hb⟩
  rw [halloc.news_flatten] at hflat
  have hfree := (List.diff_sublist ..).subset (List.mem_of_mem_take hflat)
  rw [isNull_congr h halloc.order halloc.setup]
  exact h.books.wf.not_null_of_mem hfree

theorem covers_of_missing {manager : SingleTypeKVCacheManager} {new : List BlockId} {numTokens : ℕ}
    (h : new.length = manager.numMissingBlocks r numTokens) :
    numTokens ≤ (manager.getBlocks r ++ new).length * manager.kvCacheSpec.blockSize := by
  rw [← ceilDiv_le_iff manager.kvCacheSpec.blockSize_pos, List.length_append, h,
    SingleTypeKVCacheManager.numMissingBlocks]
  omega

/-- A running request that is given slots keeps what it kept. -/
theorem Keeps.allocateSlots (h : m.InOrder free)
    (hkeeps : m.Keeps request.requestId n request.numComputedTokens)
    {numNewTokens : ℕ} {blocks : List (List BlockId)}
    (hok : m.allocateSlots request numNewTokens 0 none 0 false = .ok (some blocks, m')) :
    m'.Keeps request.requestId n (request.numComputedTokens + numNewTokens) := by
  have hnone : m.cachedBlocks (m.perGroupCached none) = [] := by
    unfold cachedBlocks perGroupCached
    rw [emptyBlocks_flatten, List.filter_nil]
  rcases allocateSlots_ok h (by rw [hnone]; exact fun b hb => absurd hb List.not_mem_nil) hok with
    ⟨hfail, -⟩ | ⟨news, free', adopted, mid, -, halloc⟩
  · cases hfail
  obtain ⟨-, rfl⟩ := halloc.adopted_eq.resolve_right fun hsome => hsome.1 hnone
  refine ⟨fun manager' hm => ?_, fun manager' hm => ?_⟩
  · obtain ⟨manager, hm, new, hspec, htable, -, hnews⟩ := halloc.table h hm
    rw [hspec, htable]
    exact ((hkeeps.kept manager hm).congr (isNull_congr h halloc.order halloc.setup)).append hnews
  · obtain ⟨manager, hm, new, hspec, htable, hlength, -⟩ := halloc.table h hm
    rw [hspec, htable, halloc.setup.maxModelLen]
    exact covers_of_missing hlength

/-- What a lookup answers keeps what is attended to behind it. -/
theorem getComputedBlocks_kept (h : m.InOrder free)
    (hok : m.getComputedBlocks request = .ok ((hits, k), m')) :
    List.Forall₂ (fun manager blocks => Kept m.blockPool manager.kvCacheSpec
      (blocks.length * manager.kvCacheSpec.blockSize) blocks) m.singleTypeManagers hits := by
  have hnull : NullFree m.blockPool := h.books.wf.nullFree
  have hempty : List.Forall₂ (fun manager blocks => Kept m.blockPool manager.kvCacheSpec
      (blocks.length * manager.kvCacheSpec.blockSize) blocks) m.singleTypeManagers m.emptyBlocks :=
    forall₂_emptyBlocks fun manager => .nil
  unfold getComputedBlocks at hok
  split at hok
  · obtain ⟨heq, -⟩ := Prod.mk.inj (Except.ok.inj hok)
    rw [← (Prod.mk.inj heq).1]
    exact hempty
  split at hok
  · cases hok
  rename_i perGroup found hfind
  dsimp only at hok
  split at hok
  · obtain ⟨heq, -⟩ := Prod.mk.inj (Except.ok.inj hok)
    rw [← (Prod.mk.inj heq).1]
    exact hempty
  · obtain ⟨heq, -⟩ := Prod.mk.inj (Except.ok.inj hok)
    rw [← (Prod.mk.inj heq).1]
    exact KVCacheCoordinator.findLongestCacheHit_records
      (P := fun _ spec blocks => Kept m.blockPool spec (blocks.length * spec.blockSize) blocks)
      (fun hfind => findLongestCacheHit_kept hnull hfind)
      (fun j hfull hkept i b hb _ => hkept i b (getElem?_of_take hb).2
        (KVCacheSpec.attends_of_full hfull))
      (fun _ _ => .nil) hfind

/-- A request that is admitted keeps what its hits keep. -/
theorem allocateSlots_keeps (h : m.InOrder free) (hidle : m.Idle request.requestId)
    (hhits : m.Hits request hits) (hfound : m.FoundBlocks k hits)
    (hkept : List.Forall₂ (fun manager blocks => Kept m.blockPool manager.kvCacheSpec
      (blocks.length * manager.kvCacheSpec.blockSize) blocks) m.singleTypeManagers hits)
    {numNewTokens numComputed : ℕ} (hk : k * m.kvCacheConfig.blockSize ≤ n)
    {blocks : List (List BlockId)} (hok : m.allocateSlots request numNewTokens numComputed
      (some hits) 0 false = .ok (some blocks, m')) :
    m'.Keeps request.requestId n (request.numComputedTokens + numComputed + numNewTokens) := by
  rcases allocateSlots_ok h (cachedBlocks_lt h fun _ heq => Option.some.inj heq ▸ hhits) hok with
    ⟨hnone, -⟩ | ⟨news, free', adopted, mid, -, halloc⟩
  · cases hnone
  rw [hfound.perGroupCached_eq] at halloc
  -- the tables the new blocks go behind are empty, or the hits
  have hadopted : ∀ manager ∈ adopted, Kept m.blockPool manager.kvCacheSpec n
      (manager.getBlocks request.requestId) := by
    rcases halloc.adopted_eq with ⟨-, rfl⟩ | ⟨-, hlength, -, rfl⟩
    · intro manager hm
      rw [hidle manager hm]
      exact .nil
    · intro manager hm
      obtain ⟨i, hi, rfl⟩ := List.mem_iff_getElem.mp hm
      rw [List.length_zipWith, lt_min_iff] at hi
      obtain ⟨hlen, -⟩ := (List.forall₂_iff_get.mp hfound).2 i hi.1 hi.2
      have hkeep := (List.forall₂_iff_get.mp hkept).2 i hi.1 hi.2
      simp only [List.get_eq_getElem] at hlen hkeep
      rw [hlen, h.blockSize_eq (List.getElem_mem hi.1)] at hkeep
      rw [List.getElem_zipWith]
      simpa using hkeep.mono hk
  refine ⟨fun manager' hm => ?_, fun manager' hm => ?_⟩
  · obtain ⟨manager, hm, new, hspec, htable, -, hnews⟩ := halloc.table h hm
    rw [hspec, htable]
    exact ((hadopted manager hm).congr (isNull_congr h halloc.order halloc.setup)).append hnews
  · obtain ⟨manager, hm, new, hspec, htable, hlength, -⟩ := halloc.table h hm
    rw [hspec, htable, halloc.setup.maxModelLen]
    exact covers_of_missing hlength

/-! ### Shedding -/

/-- Where nothing is gone but what shedding takes, all of that is gone after it, and
nothing else; a table keeps its length. -/
theorem removeSkippedBlocks_sheds (h : m.InOrder free)
    (hok : m.removeSkippedBlocks request = .ok m')
    (hkeeps : m.Keeps request.requestId n count)
    (hspares : m.Spares request.requestId request.numComputedTokens) :
    m'.Keeps request.requestId request.numComputedTokens count ∧
      m'.Spares request.requestId request.numComputedTokens ∧
      m'.HasShed request.requestId request.numComputedTokens := by
  obtain ⟨m₁, free', hok', h', hs, -, hsheds⟩ := removeSkippedBlocks_spec h request
  rw [hok, Except.ok.injEq] at hok'
  subst hok'
  rcases hsheds with ⟨hskip, rfl, -⟩ | hsheds
  · -- no group sheds anything
    refine ⟨⟨fun manager hm => (hspares manager hm).kept, hkeeps.covers⟩, hspares,
      fun manager hm i b hb hi => ?_⟩
    have hfull : manager.kvCacheSpec.isFullAttention = true := by
      have hnot := List.any_eq_false.mp hskip _ (h.spec_mem hm)
      simpa [KVCacheSpec.isSkipping] using hnot
    rw [KVCacheSpec.numSkippedBlocks_of_full hfull] at hi
    exact absurd hi (Nat.not_lt_zero i)
  have htable : ∀ manager' ∈ m'.singleTypeManagers, ∃ manager ∈ m.singleTypeManagers,
      manager'.kvCacheSpec = manager.kvCacheSpec ∧
      (manager'.getBlocks request.requestId).length =
        (manager.getBlocks request.requestId).length ∧
      Spared m'.blockPool manager.kvCacheSpec request.numComputedTokens
        (manager'.getBlocks request.requestId) ∧
      Shed m'.blockPool manager.kvCacheSpec request.numComputedTokens
        (manager'.getBlocks request.requestId) := by
    intro manager' hm'
    obtain ⟨i, hi, rfl⟩ := List.mem_iff_getElem.mp hm'
    have hi₀ : i < m.singleTypeManagers.length := hsheds.length_eq ▸ hi
    have hshed := (List.forall₂_iff_get.mp hsheds).2 i hi₀ hi
    simp only [List.get_eq_getElem] at hshed
    have hm := List.getElem_mem hi₀
    have hspared := (hspares _ hm).congr (isNull_congr h h' hs)
    obtain ⟨null, k, hk, hnull, hcases⟩ := hshed
    have hmarked : k ≠ 0 → (m'.blockPool.blocks null).isNull = true := by
      intro hne
      rw [h'.books.wf.isNull_iff, hs.frame.nullBlock]
      exact hnull hne
    have hboth := hspared.shed hk hmarked
    refine ⟨_, hm, ?_⟩
    rcases hcases with ⟨hzero, heq⟩ | heq
    · rw [hzero, List.replicate_zero, List.nil_append, List.drop_zero] at hboth
      rw [heq]
      exact ⟨rfl, rfl, hboth⟩
    · rw [heq]
      refine ⟨rfl, ?_, ?_⟩
      · simp only [SingleTypeKVCacheManager.getBlocks_setBlocks, if_true, List.length_append,
          List.length_replicate, List.length_drop]
        omega
      · simpa using hboth
  refine ⟨⟨fun manager' hm => ?_, fun manager' hm => ?_⟩, fun manager' hm => ?_,
    fun manager' hm => ?_⟩
  · obtain ⟨manager, -, hspec, -, hspared, -⟩ := htable manager' hm
    rw [hspec]
    exact hspared.kept
  · obtain ⟨manager, hm, hspec, hlen, -, -⟩ := htable manager' hm
    rw [hspec, hlen, hs.maxModelLen]
    exact hkeeps.covers manager hm
  · obtain ⟨manager, -, hspec, -, hspared, -⟩ := htable manager' hm
    rw [hspec]
    exact hspared
  · obtain ⟨manager, -, hspec, -, -, hshed⟩ := htable manager' hm
    rw [hspec]
    exact hshed

end KVCacheManager

end Pvllm
