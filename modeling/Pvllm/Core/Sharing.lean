import Pvllm.Core.Retention
import Mathlib.Data.Finset.Card
import Mathlib.Data.List.NodupEquivFin
import Mathlib.Order.Bounds.Basic

/-!
Which tables share a block.

A block that stands in several tables was published, and its hash says in which group and
at which index. So with hashes that differ from index to index, all tables have a shared
block at one place, and the count of its references is the number of the tables it is in.
-/

namespace Pvllm

variable {H : Type} [DecidableEq H]

/-! ### Places of a block -/

namespace SingleTypeKVCacheManager

variable {manager : SingleTypeKVCacheManager} {r r' : RequestId} {i i' : ℕ} {b : BlockId}

/-- A block that is held once stands at one place. -/
theorem place_unique (hb : (manager.getBlocks r)[i]? = some b)
    (hb' : (manager.getBlocks r')[i']? = some b) (hcount : manager.held.count b ≤ 1) :
    r = r' ∧ i = i' := by
  have hsplit := congrArg (Multiset.count b) (manager.held_popBlocks r)
  rw [Multiset.count_add, Multiset.coe_count] at hsplit
  have hone : 1 ≤ (manager.getBlocks r).count b :=
    List.one_le_count_iff.mpr (List.mem_of_getElem? hb)
  by_cases hr : r = r'
  · subst hr
    refine ⟨rfl, ?_⟩
    by_contra hne
    obtain ⟨hi, hget⟩ := List.getElem?_eq_some_iff.mp hb
    obtain ⟨hi', hget'⟩ := List.getElem?_eq_some_iff.mp hb'
    have hdup : List.Duplicate b (manager.getBlocks r) := by
      rw [List.duplicate_iff_exists_distinct_get]
      rcases Nat.lt_or_gt_of_ne hne with hlt | hlt
      · exact ⟨⟨i, hi⟩, ⟨i', hi'⟩, hlt, hget.symm, hget'.symm⟩
      · exact ⟨⟨i', hi'⟩, ⟨i, hi⟩, hlt, hget'.symm, hget.symm⟩
    have htwo := List.duplicate_iff_two_le_count.mp hdup
    omega
  · have hother : b ∈ (manager.popBlocks r).getBlocks r' := by
      rw [getBlocks_popBlocks, if_neg (Ne.symm hr)]
      exact List.mem_of_getElem? hb'
    have hpos := Multiset.one_le_count_iff_mem.mpr (mem_held hother)
    omega

end SingleTypeKVCacheManager

/-- A block that is held once is held in one group. -/
theorem group_unique {managers : List SingleTypeKVCacheManager}
    {manager manager' : SingleTypeKVCacheManager} {b : BlockId} (hm : manager ∈ managers)
    (hm' : manager' ∈ managers) (hb : b ∈ manager.held) (hb' : b ∈ manager'.held)
    (hcount : (heldBlocks managers).count b ≤ 1) : manager = manager' := by
  induction managers with
  | nil => exact absurd hm List.not_mem_nil
  | cons first managers ih =>
      rw [heldBlocks_cons, Multiset.count_add] at hcount
      have hrest : ∀ other ∈ managers, b ∈ other.held → 1 ≤ (heldBlocks managers).count b :=
        fun other hother hmem =>
          Multiset.one_le_count_iff_mem.mpr (mem_heldBlocks.mpr ⟨other, hother, hmem⟩)
      rcases List.mem_cons.mp hm with rfl | hrest₁
      · rcases List.mem_cons.mp hm' with rfl | hm'
        · rfl
        · have hone := Multiset.one_le_count_iff_mem.mpr hb
          have htwo := hrest _ hm' hb'
          omega
      · rcases List.mem_cons.mp hm' with rfl | hm'
        · have hone := Multiset.one_le_count_iff_mem.mpr hb'
          have htwo := hrest _ hrest₁ hb
          omega
        · exact ih hrest₁ hm' (by omega)

theorem count_held_le {managers : List SingleTypeKVCacheManager}
    {manager : SingleTypeKVCacheManager} (hm : manager ∈ managers) (b : BlockId) :
    manager.held.count b ≤ (heldBlocks managers).count b := by
  induction managers with
  | nil => exact absurd hm List.not_mem_nil
  | cons first managers ih =>
      rw [heldBlocks_cons, Multiset.count_add]
      rcases List.mem_cons.mp hm with rfl | hm
      · omega
      · have hle := ih hm
        omega

theorem count_heldBlocks_mono {managers managers' : List SingleTypeKVCacheManager} {b : BlockId}
    (h : List.Forall₂ (fun manager manager' => manager'.held.count b ≤ manager.held.count b)
      managers managers') : (heldBlocks managers').count b ≤ (heldBlocks managers).count b := by
  induction h with
  | nil => exact le_rfl
  | cons hfirst _ ih =>
      rw [heldBlocks_cons, heldBlocks_cons, Multiset.count_add, Multiset.count_add]
      exact Nat.add_le_add hfirst ih

theorem count_heldBlocks_eq {managers : List SingleTypeKVCacheManager}
    {manager : SingleTypeKVCacheManager} {b : BlockId} (hm : manager ∈ managers)
    (hnodup : (managers.map (·.kvCacheGroupId)).Nodup)
    (hothers : ∀ other ∈ managers, b ∈ other.held → other = manager) :
    (heldBlocks managers).count b = manager.held.count b := by
  induction managers with
  | nil => exact absurd hm List.not_mem_nil
  | cons first managers ih =>
      rw [List.map_cons, List.nodup_cons] at hnodup
      rw [heldBlocks_cons, Multiset.count_add]
      rcases List.mem_cons.mp hm with rfl | hm
      · have hnone : b ∉ heldBlocks managers := by
          rw [mem_heldBlocks]
          rintro ⟨other, hother, hmem⟩
          have heq := hothers other (List.mem_cons_of_mem _ hother) hmem
          exact hnodup.1 (List.mem_map.mpr ⟨other, hother, congrArg _ heq⟩)
        rw [Multiset.count_eq_zero_of_notMem hnone, add_zero]
      · have hnone : b ∉ first.held := by
          intro hmem
          have heq := hothers first List.mem_cons_self hmem
          exact hnodup.1 (List.mem_map.mpr ⟨manager, hm, congrArg _ heq.symm⟩)
        rw [Multiset.count_eq_zero_of_notMem hnone, zero_add]
        exact ih hm hnodup.2 fun other hother => hothers other (List.mem_cons_of_mem _ hother)

/-! ### Blocks under their hashes -/

/-- A block that is referenced twice is published; a published block stands where its hash
says; and a full-attention table has no hole. -/
structure Marked (hashes : RequestId → List H) (pool : BlockPool H)
    (managers : List SingleTypeKVCacheManager) : Prop where
  shared : ∀ b, (pool.blocks b).isNull = false → 2 ≤ (pool.blocks b).refCnt →
    (pool.blocks b).blockHash ≠ none
  placed : ∀ manager ∈ managers, ∀ (r : RequestId) (i : ℕ) (b : BlockId),
    (manager.getBlocks r)[i]? = some b → ∀ key, (pool.blocks b).blockHash = some key →
      key.2 = manager.kvCacheGroupId ∧ (hashes r)[i]? = some key.1
  filled : ∀ manager ∈ managers, manager.kvCacheSpec.isFullAttention = true → ∀ r,
    ∀ b ∈ manager.getBlocks r, (pool.blocks b).isNull = false

namespace Marked

variable {hashes hashes' : RequestId → List H} {pool pool' : BlockPool H}
  {managers managers' : List SingleTypeKVCacheManager}

omit [DecidableEq H] in
/-- The hashes of a request that holds something may grow. -/
theorem grow (h : Marked hashes pool managers)
    (hle : ∀ r, (∃ manager ∈ managers, manager.getBlocks r ≠ []) → hashes r <+: hashes' r) :
    Marked hashes' pool managers where
  shared := h.shared
  placed manager hm r i b hb key hkey := by
    obtain ⟨hgroup, hhash⟩ := h.placed manager hm r i b hb key hkey
    have hne : manager.getBlocks r ≠ [] := List.ne_nil_of_mem (List.mem_of_getElem? hb)
    obtain ⟨more, hmore⟩ := hle r ⟨manager, hm, hne⟩
    rw [← hmore, List.getElem?_append_left (List.getElem?_eq_some_iff.mp hhash).1]
    exact ⟨hgroup, hhash⟩
  filled := h.filled

omit [DecidableEq H] in
/-- Entries that are given back, or turn null, leave the rest in place. -/
theorem gives (h : Marked hashes pool managers)
    (hblocks : ∀ c, (pool'.blocks c).isNull = (pool.blocks c).isNull ∧
      (pool'.blocks c).blockHash = (pool.blocks c).blockHash)
    (hrefs : ∀ c, (pool.blocks c).isNull = false →
      (pool'.blocks c).refCnt ≤ (pool.blocks c).refCnt)
    (hnull : ∀ c, (pool.blocks c).isNull = true → (pool.blocks c).blockHash = none)
    (htables : ∀ manager' ∈ managers', ∃ manager ∈ managers,
      manager'.kvCacheGroupId = manager.kvCacheGroupId ∧
      manager'.kvCacheSpec = manager.kvCacheSpec ∧
      ∀ (r : RequestId) (i : ℕ) (b : BlockId), (manager'.getBlocks r)[i]? = some b →
        (manager.getBlocks r)[i]? = some b ∨
          (pool.blocks b).isNull = true ∧ manager.kvCacheSpec.isFullAttention = false) :
    Marked hashes pool' managers' where
  shared b hnn htwo := by
    rw [(hblocks b).1] at hnn
    rw [(hblocks b).2]
    exact h.shared b hnn (htwo.trans (hrefs b hnn))
  placed manager' hm' r i b hb key hkey := by
    obtain ⟨manager, hm, hgroup, -, hentries⟩ := htables manager' hm'
    rw [(hblocks b).2] at hkey
    rcases hentries r i b hb with hb | ⟨hnull', -⟩
    · rw [hgroup]
      exact h.placed manager hm r i b hb key hkey
    · rw [hnull b hnull'] at hkey
      cases hkey
  filled manager' hm' hfull r b hb := by
    obtain ⟨manager, hm, -, hspec, hentries⟩ := htables manager' hm'
    obtain ⟨i, hi⟩ := List.getElem?_of_mem hb
    rw [(hblocks b).1]
    rw [hspec] at hfull
    rcases hentries r i b hi with hb | ⟨-, hnot⟩
    · exact h.filled manager hm hfull r b (List.mem_of_getElem? hb)
    · rw [hfull] at hnot
      cases hnot

/-- Where a block stands twice, its hash says that the places are the same one but for the
request. -/
theorem aligned {free : List BlockId} (h : Marked hashes pool managers)
    (hbooks : Accounts pool free (heldBlocks managers))
    (hgroups : (managers.map (·.kvCacheGroupId)).Nodup)
    {manager manager' : SingleTypeKVCacheManager} (hm : manager ∈ managers)
    (hm' : manager' ∈ managers) {r r' : RequestId} {i i' : ℕ} {b : BlockId}
    (hnn : (pool.blocks b).isNull = false) (hb : (manager.getBlocks r)[i]? = some b)
    (hb' : (manager'.getBlocks r')[i']? = some b) :
    manager = manager' ∧ (r = r' ∧ i = i' ∨
      ∃ key, (hashes r)[i]? = some key ∧ (hashes r')[i']? = some key) := by
  have hheld := SingleTypeKVCacheManager.mem_held (List.mem_of_getElem? hb)
  have hheld' := SingleTypeKVCacheManager.mem_held (List.mem_of_getElem? hb')
  have hrefs := hbooks.refCnt_eq b hnn
  rcases Nat.lt_or_ge (pool.blocks b).refCnt 2 with hone | htwo
  · obtain rfl := group_unique hm hm' hheld hheld' (by omega)
    have hle := count_held_le hm b
    exact ⟨rfl, Or.inl (SingleTypeKVCacheManager.place_unique hb hb' (by omega))⟩
  · obtain ⟨key, hkey⟩ := Option.ne_none_iff_exists'.mp (h.shared b hnn htwo)
    obtain ⟨hgroup, hhash⟩ := h.placed manager hm r i b hb key hkey
    obtain ⟨hgroup', hhash'⟩ := h.placed manager' hm' r' i' b hb' key hkey
    refine ⟨?_, Or.inr ⟨key.1, hhash, hhash'⟩⟩
    exact List.inj_on_of_nodup_map hgroups hm hm' (hgroup.symm.trans hgroup')

/-- Publishing marks blocks that stand in one place only. -/
theorem published {free : List BlockId} (h : Marked hashes pool managers)
    (hbooks : Accounts pool free (heldBlocks managers))
    {request : Request H} {numFullBlocks : ℕ}
    (hsame : hashes request.requestId = request.blockHashes)
    (hpublished : Published managers request numFullBlocks pool pool')
    (hnull : ∀ c, (pool'.blocks c).isNull = true → (pool'.blocks c).blockHash = none) :
    Marked hashes pool' managers where
  shared b hnn htwo := by
    rw [(hpublished.same b).2] at hnn
    rw [(hpublished.same b).1] at htwo
    have hmarked := h.shared b hnn htwo
    rwa [hpublished.keeps b hmarked]
  placed manager hm r i b hb key hkey := by
    by_cases hnone : (pool.blocks b).blockHash = none
    · obtain ⟨manager', hm', j, -, hb', hhash, hgroup⟩ := hpublished.sound b key hkey hnone
      have hnn : (pool.blocks b).isNull = false := by
        by_contra htrue
        rw [Bool.not_eq_false, ← (hpublished.same b).2] at htrue
        rw [hnull b htrue] at hkey
        cases hkey
      -- the block has one reference, so this is the place it is published at
      have hone : (pool.blocks b).refCnt < 2 := by
        by_contra htwo
        exact h.shared b hnn (by omega) hnone
      have hrefs := hbooks.refCnt_eq b hnn
      obtain rfl := group_unique hm hm'
        (SingleTypeKVCacheManager.mem_held (List.mem_of_getElem? hb))
        (SingleTypeKVCacheManager.mem_held (List.mem_of_getElem? hb')) (by omega)
      have hle := count_held_le hm b
      obtain ⟨rfl, rfl⟩ := SingleTypeKVCacheManager.place_unique hb hb' (by omega)
      rw [hsame]
      exact ⟨hgroup, hhash⟩
    · rw [hpublished.keeps b hnone] at hkey
      exact h.placed manager hm r i b hb key hkey
  filled manager hm hfull r b hb := by
    rw [(hpublished.same b).2]
    exact h.filled manager hm hfull r b hb

end Marked

/-! ### Every call on the manager -/

theorem BlockPool.WellFormed.idle_of_reset {pool : BlockPool H} {free : List BlockId}
    (h : pool.WellFormed free) (hdone : pool.resetPrefixCache.1 = true) :
    ∀ b, b < pool.numGpuBlocks → (pool.blocks b).isNull = false → (pool.blocks b).refCnt = 0 := by
  have hall : pool.numUsableBlocks ≤ free.length := by
    by_contra hlt
    unfold BlockPool.resetPrefixCache at hdone
    rw [h.getNumFreeBlocks_eq, if_pos (by omega)] at hdone
    cases hdone
  -- the free blocks are blocks that can be given out, and as many as there are of these
  have hsubset : free.toFinset ⊆
      (Finset.range pool.numGpuBlocks).filter fun b => (pool.blocks b).isNull = false := by
    intro b hb
    rw [List.mem_toFinset] at hb
    rw [Finset.mem_filter, Finset.mem_range]
    exact ⟨((h.mem_free b).mp hb).1, h.not_null_of_mem hb⟩
  have hcard : ((Finset.range pool.numGpuBlocks).filter fun b =>
      (pool.blocks b).isNull = false).card ≤ pool.numUsableBlocks := by
    unfold BlockPool.numUsableBlocks
    cases hnull : pool.nullBlock with
    | none =>
        have hle := Finset.card_filter_le (Finset.range pool.numGpuBlocks)
          fun b => (pool.blocks b).isNull = false
        rw [Finset.card_range] at hle
        simpa using hle
    | some null =>
        have hlt := h.null_lt null hnull
        have herase : ((Finset.range pool.numGpuBlocks).filter fun b =>
            (pool.blocks b).isNull = false) ⊆ (Finset.range pool.numGpuBlocks).erase null := by
          intro b hb
          rw [Finset.mem_filter] at hb
          rw [Finset.mem_erase]
          refine ⟨?_, hb.1⟩
          rintro rfl
          rw [(h.isNull_iff b).mpr hnull] at hb
          cases hb.2
        have hle := Finset.card_le_card herase
        rw [Finset.card_erase_of_mem (Finset.mem_range.mpr hlt), Finset.card_range] at hle
        exact hle
  have hfree : free.toFinset.card = free.length := List.toFinset_card_of_nodup h.queue.nodup
  have heq := Finset.eq_of_subset_of_card_le hsubset (by omega)
  intro b hb hnn
  have hmem : b ∈ free.toFinset := by
    rw [heq, Finset.mem_filter, Finset.mem_range]
    exact ⟨hb, hnn⟩
  exact ((h.mem_free b).mp (List.mem_toFinset.mp hmem)).2

theorem cachedAt_hash {pool : BlockPool H} (h : pool.Indexed) {groupId : ℕ} {blockHashes : List H}
    {i : ℕ} {b : BlockId} (hb : cachedAt pool groupId blockHashes i = some b) :
    ∃ blockHash, blockHashes[i]? = some blockHash ∧
      (pool.blocks b).blockHash = some (blockHash, groupId) := by
  unfold cachedAt at hb
  split at hb
  · cases hb
  · rename_i blockHash hhash
    exact ⟨blockHash, hhash, h.getCachedBlock_hash hb⟩

namespace KVCacheManager

variable {m m' : KVCacheManager H} {free free' : List BlockId} {request : Request H}
  {hashes : RequestId → List H}

/-- The blocks of a manager stand under their hashes. -/
def Marks (hashes : RequestId → List H) (m : KVCacheManager H) : Prop :=
  Marked hashes m.blockPool m.singleTypeManagers

/-- The hits of a full-attention group have no hole. -/
def Filled (m : KVCacheManager H) (hits : List (List BlockId)) : Prop :=
  List.Forall₂ (fun manager blocks => manager.kvCacheSpec.isFullAttention = true →
    ∀ b ∈ blocks, (m.blockPool.blocks b).isNull = false) m.singleTypeManagers hits

omit [DecidableEq H] in
theorem Configured.groupIds_nodup (h : m.Configured) :
    (m.singleTypeManagers.map (·.kvCacheGroupId)).Nodup := by
  have hids : m.singleTypeManagers.map (·.kvCacheGroupId) =
      List.range m.kvCacheConfig.kvCacheGroups.length :=
    calc m.singleTypeManagers.map (·.kvCacheGroupId)
        = m.groups.map Prod.fst := by rw [KVCacheManager.groups, List.map_map]; rfl
      _ = (m.kvCacheConfig.kvCacheGroups.mapIdx fun i spec => (i, spec)).map Prod.fst := by
          rw [h.groups]
      _ = List.range m.kvCacheConfig.kvCacheGroups.length :=
          List.ext_getElem (by simp) (by simp)
  rw [hids]
  exact List.nodup_range

theorem InOrder.null_unhashed (h : m.InOrder free) :
    ∀ c, (m.blockPool.blocks c).isNull = true → (m.blockPool.blocks c).blockHash = none :=
  fun c hc => h.books.wf.null_unhashed c ((h.books.wf.isNull_iff c).mp hc)

/-- What a table is made of after an allocation. -/
theorem Allocates.entry {per news : List (List BlockId)} {numTokens : ℕ} {published : Option ℕ}
    {adopted : List SingleTypeKVCacheManager} {mid : BlockPool H}
    {P : SingleTypeKVCacheManager → List BlockId → Prop}
    (halloc : Allocates m m' free free' request per news numTokens published adopted mid)
    (hper : List.Forall₂ P m.singleTypeManagers per)
    {manager' : SingleTypeKVCacheManager} (hm : manager' ∈ m'.singleTypeManagers) :
    ∃ manager ∈ m.singleTypeManagers, manager'.kvCacheGroupId = manager.kvCacheGroupId ∧
      manager'.kvCacheSpec = manager.kvCacheSpec ∧
      (∀ r, r ≠ request.requestId → manager'.getBlocks r = manager.getBlocks r) ∧
      ∃ first new, manager'.getBlocks request.requestId = first ++ new ∧
        (∀ b ∈ new, b ∈ news.flatten) ∧
        (first = manager.getBlocks request.requestId ∨ P manager first) := by
  rw [halloc.managers_eq] at hm
  obtain ⟨i, hi, rfl⟩ := List.mem_iff_getElem.mp hm
  rw [List.length_zipWith, lt_min_iff] at hi
  rw [List.getElem_zipWith]
  have hnew : ∀ b ∈ news[i], b ∈ news.flatten := fun b hb =>
    List.mem_flatten.mpr ⟨_, List.getElem_mem hi.2, hb⟩
  rcases halloc.adopted_eq with ⟨-, rfl⟩ | ⟨-, hlength, -, rfl⟩
  · refine ⟨m.singleTypeManagers[i], List.getElem_mem hi.1, rfl, rfl, fun r hr => ?_, _, news[i],
      ?_, hnew, Or.inl rfl⟩
    · rw [SingleTypeKVCacheManager.getBlocks_extend, if_neg hr]
    · rw [SingleTypeKVCacheManager.getBlocks_extend, if_pos rfl]
  · have hi₁ := hi.1
    rw [List.length_zipWith, lt_min_iff] at hi₁
    refine ⟨m.singleTypeManagers[i], List.getElem_mem hi₁.1, ?_, ?_, fun r hr => ?_, per[i],
      news[i], ?_, hnew, Or.inr ?_⟩
    · rw [List.getElem_zipWith]
      rfl
    · rw [List.getElem_zipWith]
      rfl
    · rw [List.getElem_zipWith, SingleTypeKVCacheManager.getBlocks_extend, if_neg hr,
        SingleTypeKVCacheManager.getBlocks_setBlocks, if_neg hr]
    · rw [List.getElem_zipWith, SingleTypeKVCacheManager.getBlocks_extend, if_pos rfl,
        SingleTypeKVCacheManager.getBlocks_setBlocks, if_pos rfl]
    · exact (List.forall₂_iff_get.mp hper).2 i hi₁.1 hi₁.2

/-- What is taken over from the cache carries a hash. -/
theorem Hits.hashed {per : List (List BlockId)} (h : m.InOrder free) (hhits : m.Hits request per) :
    ∀ b ∈ m.cachedBlocks per, (m.blockPool.blocks b).blockHash ≠ none := by
  intro b hb
  obtain ⟨hb, hnn⟩ := List.mem_filter.mp hb
  obtain ⟨blocks, hblocks, hb⟩ := List.mem_flatten.mp hb
  obtain ⟨j, hj, rfl⟩ := List.mem_iff_getElem.mp hblocks
  obtain ⟨i, hi⟩ := List.getElem?_of_mem hb
  obtain ⟨hlength, hget⟩ := List.forall₂_iff_get.mp hhits
  obtain ⟨blockHash, -, hkey⟩ := cachedAt_hash h.books.wf.toIndexed
    (hget j (by omega) hj i b hi (by simpa using hnn))
  rw [hkey]
  exact Option.some_ne_none _

/-- Before anything is published, the tables have grown by blocks without a hash and by
blocks under theirs. -/
theorem Marks.adopts {per news : List (List BlockId)} {numTokens : ℕ} {published : Option ℕ}
    {adopted : List SingleTypeKVCacheManager} {mid : BlockPool H} (hmarks : m.Marks hashes)
    (h : m.InOrder free) (hsame : hashes request.requestId = request.blockHashes)
    (hhits : m.Hits request per) (hfilled : m.Filled per)
    (halloc : Allocates m m' free free' request per news numTokens published adopted mid) :
    Marked hashes mid m'.singleTypeManagers := by
  refine ⟨fun b hnn htwo => ?_, fun manager' hm' r i b hb key hkey => ?_,
    fun manager' hm' hfull r b hb => ?_⟩
  · rw [halloc.mid_blocks] at hnn htwo ⊢
    split at hnn
    · -- it is handed out anew, so one table has it
      rename_i hnew
      rw [if_pos hnew] at htwo
      change 2 ≤ 1 at htwo
      omega
    · -- it is a hit, or stands where it stood
      rename_i hold
      rw [if_neg hold] at htwo ⊢
      by_cases hcount : b ∈ m.cachedBlocks per
      · exact hhits.hashed h b hcount
      · rw [List.count_eq_zero_of_not_mem hcount] at htwo
        exact hmarks.shared b hnn htwo
  · rw [halloc.mid_blocks] at hkey
    split at hkey
    · cases hkey
    rename_i hold
    obtain ⟨manager, hm, hgroup, -, hothers, first, new, htable, hnew, hfirst⟩ :=
      halloc.entry hhits hm'
    rw [hgroup]
    by_cases hr : r = request.requestId
    · subst hr
      -- the request's own table: what was there or the hits, and then what is new
      rw [htable, List.getElem?_append] at hb
      split at hb
      · rcases hfirst with rfl | hhit
        · exact hmarks.placed manager hm _ i b hb key hkey
        · have hnn : (m.blockPool.blocks b).isNull = false := by
            by_contra hnull
            rw [Bool.not_eq_false] at hnull
            change (m.blockPool.blocks b).blockHash = some key at hkey
            rw [h.null_unhashed b hnull] at hkey
            cases hkey
          obtain ⟨blockHash, hhash, hkey'⟩ := cachedAt_hash h.books.wf.toIndexed
            (hhit i b hb hnn)
          obtain rfl := Option.some.inj (hkey.symm.trans hkey')
          rw [hsame]
          exact ⟨rfl, hhash⟩
      · exact absurd (hnew b (List.mem_of_getElem? hb)) hold
    · rw [hothers r hr] at hb
      exact hmarks.placed manager hm r i b hb key hkey
  · rw [halloc.mid_blocks]
    split
    · rfl
    obtain ⟨manager, hm, -, hspec, hothers, first, new, htable, hnew, hfirst⟩ :=
      halloc.entry hfilled hm'
    rw [hspec] at hfull
    by_cases hr : r = request.requestId
    · subst hr
      rw [htable, List.mem_append] at hb
      rcases hb with hb | hb
      · rcases hfirst with rfl | hhit
        · exact hmarks.filled manager hm hfull _ b hb
        · exact hhit hfull b hb
      · rename_i hold
        exact absurd (hnew b hb) hold
    · rw [hothers r hr] at hb
      exact hmarks.filled manager hm hfull r b hb

/-- Slots that are given leave the blocks under their hashes. -/
theorem Marks.allocates {per news : List (List BlockId)} {numTokens : ℕ} {published : Option ℕ}
    {adopted : List SingleTypeKVCacheManager} {mid : BlockPool H} (hmarks : m.Marks hashes)
    (h : m.InOrder free) (hsame : hashes request.requestId = request.blockHashes)
    (hhits : m.Hits request per) (hfilled : m.Filled per)
    (halloc : Allocates m m' free free' request per news numTokens published adopted mid) :
    m'.Marks hashes := by
  have hmid := hmarks.adopts h hsame hhits hfilled halloc
  cases hpublished : published with
  | none =>
      have hpool := halloc.pool_eq
      rw [hpublished] at hpool
      rw [Marks, hpool]
      exact hmid
  | some numFullBlocks =>
      have hpool := halloc.pool_eq
      rw [hpublished] at hpool
      exact hmid.published halloc.mid_books hsame hpool halloc.order.null_unhashed

/-- The hits an allocation works with are those it is given. -/
theorem perGroupCached_hits {hits : Option (List (List BlockId))}
    (hhits : ∀ blocks, hits = some blocks → Hits m request blocks)
    (hfilled : ∀ blocks, hits = some blocks → m.Filled blocks) :
    Hits m request (m.perGroupCached hits) ∧ m.Filled (m.perGroupCached hits) := by
  have hempty : Hits m request m.emptyBlocks ∧ m.Filled m.emptyBlocks :=
    ⟨hits_emptyBlocks, forall₂_emptyBlocks fun _ _ b hb => absurd hb List.not_mem_nil⟩
  unfold perGroupCached
  cases hits with
  | none => exact hempty
  | some blocks =>
      dsimp only
      split
      · exact ⟨hhits blocks rfl, hfilled blocks rfl⟩
      · exact hempty

theorem Marks.allocateSlots {n k lookahead : ℕ} {hits : Option (List (List BlockId))} {delay : Bool}
    {result : Option (List (List BlockId))} (hmarks : m.Marks hashes) (h : m.InOrder free)
    (hsame : hashes request.requestId = request.blockHashes)
    (hhits : ∀ blocks, hits = some blocks → Hits m request blocks)
    (hfilled : ∀ blocks, hits = some blocks → m.Filled blocks)
    (hok : m.allocateSlots request n k hits lookahead delay = .ok (result, m')) :
    m'.Marks hashes := by
  have hper := perGroupCached_hits hhits hfilled
  rcases allocateSlots_ok h (cachedBlocks_lt h hhits) hok with
    ⟨-, rfl⟩ | ⟨news, free', adopted, mid, -, halloc⟩
  · exact hmarks
  · exact hmarks.allocates h hsame hper.1 hper.2 halloc

theorem Marks.of_free {r : RequestId} (hmarks : m.Marks hashes) (h : m.InOrder free)
    (hok : m.free r = .ok m') : m'.Marks hashes := by
  obtain ⟨m₁, free', hok', h', -, hblocks, hmanagers⟩ := free_spec h r
  rw [hok, Except.ok.injEq] at hok'
  subst hok'
  refine hmarks.gives hblocks (fun c hnn => ?_) h.null_unhashed fun manager' hm' => ?_
  · have hnn' : (m'.blockPool.blocks c).isNull = false := by rw [(hblocks c).1, hnn]
    rw [h.books.refCnt_eq c hnn, h'.books.refCnt_eq c hnn', hmanagers]
    apply count_heldBlocks_mono
    rw [List.forall₂_map_right_iff, List.forall₂_same]
    intro manager _
    rw [← manager.held_popBlocks r, Multiset.count_add]
    exact Nat.le_add_right _ _
  · rw [hmanagers] at hm'
    obtain ⟨manager, hm, rfl⟩ := List.mem_map.mp hm'
    refine ⟨manager, hm, rfl, rfl, fun r' i b hb => Or.inl ?_⟩
    rw [SingleTypeKVCacheManager.getBlocks_popBlocks] at hb
    split at hb
    · cases hb
    · exact hb

theorem Marks.removeSkippedBlocks (hmarks : m.Marks hashes) (h : m.InOrder free)
    (hok : m.removeSkippedBlocks request = .ok m') : m'.Marks hashes := by
  obtain ⟨m₁, free', hok', h', -, hblocks, hsheds⟩ := removeSkippedBlocks_spec h request
  rw [hok, Except.ok.injEq] at hok'
  subst hok'
  rcases hsheds with ⟨-, rfl, -⟩ | hsheds
  · exact hmarks
  have hnull : ∀ null, m.blockPool.nullBlock = some null →
      (m.blockPool.blocks null).isNull = true := fun null => (h.books.wf.isNull_iff null).mpr
  refine hmarks.gives hblocks (fun c hnn => ?_) h.null_unhashed fun manager' hm' => ?_
  · -- a table that sheds refers to no block more often
    have hnn' : (m'.blockPool.blocks c).isNull = false := by rw [(hblocks c).1, hnn]
    rw [h.books.refCnt_eq c hnn, h'.books.refCnt_eq c hnn']
    refine count_heldBlocks_mono (hsheds.imp fun manager manager' hshed => ?_)
    obtain ⟨null, k, -, hreserved, ⟨-, rfl⟩ | rfl⟩ := hshed
    · exact le_rfl
    have hset := congrArg (Multiset.count c) (manager.held_setBlocks request.requestId
      (List.replicate k null ++ (manager.getBlocks request.requestId).drop k))
    have hnone : (List.replicate k null).count c = 0 := by
      rw [List.count_eq_zero]
      intro hmem
      obtain ⟨hk, rfl⟩ := List.mem_replicate.mp hmem
      rw [hnull c (hreserved hk)] at hnn
      cases hnn
    have hdrop := (List.drop_sublist k (manager.getBlocks request.requestId)).count_le c
    rw [Multiset.count_add, Multiset.count_add, Multiset.coe_count, Multiset.coe_count,
      List.count_append, hnone] at hset
    omega
  · -- an entry is null now, or stands where it stood
    obtain ⟨i, hi, rfl⟩ := List.mem_iff_getElem.mp hm'
    obtain ⟨hlength, hget⟩ := List.forall₂_iff_get.mp hsheds
    have hshed := hget i (by omega) hi
    refine ⟨_, List.getElem_mem (hlength ▸ hi), hshed.group.1, hshed.group.2, fun r j b hb => ?_⟩
    simp only [List.get_eq_getElem] at hshed
    generalize m'.singleTypeManagers[i] = manager' at hshed hb
    generalize m.singleTypeManagers[i] = manager at hshed ⊢
    obtain ⟨null, k, hk, hreserved, ⟨-, rfl⟩ | rfl⟩ := hshed
    · exact Or.inl hb
    rw [SingleTypeKVCacheManager.getBlocks_setBlocks] at hb
    split at hb
    · rename_i hr
      subst hr
      rw [List.getElem?_append, List.length_replicate] at hb
      split at hb
      · rename_i hlt
        rw [List.getElem?_replicate, if_pos hlt, Option.some.injEq] at hb
        subst hb
        refine Or.inr ⟨hnull null (hreserved (by omega)), ?_⟩
        by_contra hfull
        rw [Bool.not_eq_false, KVCacheSpec.isFullAttention, decide_eq_true_eq] at hfull
        rw [KVCacheSpec.getNumSkippedTokens, hfull] at hk
        simp at hk
        omega
      · rename_i hge
        rw [List.getElem?_drop, Nat.add_sub_cancel' (by omega)] at hb
        exact Or.inl hb
    · exact Or.inl hb

theorem Marks.resetPrefixCache (hmarks : m.Marks hashes) (h : m.InOrder free) :
    m.resetPrefixCache.2.Marks hashes := by
  obtain ⟨-, -, hsame, hdone⟩ := h.books.wf.resetPrefixCache
  unfold KVCacheManager.resetPrefixCache
  rcases hdone with ⟨hfalse, -⟩ | ⟨htrue, hnone⟩
  · simp only [hfalse, Bool.false_eq_true, if_false]
    exact hmarks
  · simp only [htrue, if_true]
    have hidle := h.books.wf.idle_of_reset htrue
    refine ⟨fun b hnn htwo => ?_, fun manager hm r i b hb key hkey => ?_,
      fun manager hm hfull r b hb => ?_⟩
    · rw [(hsame b).2] at hnn
      rw [(hsame b).1] at htwo
      have hheld : b ∈ heldBlocks m.singleTypeManagers := by
        rw [← Multiset.one_le_count_iff_mem, ← h.books.refCnt_eq b hnn]
        omega
      have hzero := hidle b (h.books.held_lt b hheld) hnn
      omega
    · rw [hnone] at hkey
      cases hkey
    · rw [(hsame b).2]
      exact hmarks.filled manager hm hfull r b hb

end KVCacheManager

/-! ### The common prefix -/

theorem isGreatest_takeWhile {α : Type*} (p : α → Bool) (l : List α) :
    IsGreatest {k | k ≤ l.length ∧ ∀ a ∈ l.take k, p a = true} (l.takeWhile p).length := by
  constructor
  · refine ⟨(List.takeWhile_prefix p).length_le, fun a ha => ?_⟩
    rw [← List.prefix_iff_eq_take.mp (List.takeWhile_prefix p)] at ha
    exact List.mem_takeWhile_imp ha
  · rintro k ⟨hk, hall⟩
    rw [← List.take_append_drop k l, List.takeWhile_append_of_pos hall, List.length_append,
      List.length_take]
    omega

theorem sum_le_length_filter {α : Type*} {l : List α} {f : α → ℕ} {p : α → Prop} [DecidablePred p]
    (hle : ∀ a ∈ l, f a ≤ if p a then 1 else 0) :
    (l.map f).sum ≤ (l.filter fun a => p a).length := by
  induction l with
  | nil => exact le_rfl
  | cons a rest ih =>
      obtain ⟨hfirst, hrest⟩ := List.forall_mem_cons.mp hle
      have hih := ih hrest
      rw [List.map_cons, List.sum_cons, List.filter_cons]
      split_ifs with hp
      · rw [decide_eq_true_eq] at hp
        rw [if_pos hp] at hfirst
        rw [List.length_cons]
        omega
      · rw [decide_eq_true_eq] at hp
        rw [if_neg hp] at hfirst
        omega

/-- Where each element counts once at most, and those without a mark do not count, the sum is the
number of the marked just when all of these count. -/
theorem sum_eq_length_filter_iff {α : Type*} {l : List α} {f : α → ℕ} {p : α → Prop}
    [DecidablePred p] (hle : ∀ a ∈ l, f a ≤ if p a then 1 else 0) :
    (l.map f).sum = (l.filter fun a => p a).length ↔ ∀ a ∈ l, p a → f a = 1 := by
  induction l with
  | nil => simp
  | cons a rest ih =>
      obtain ⟨hfirst, hrest⟩ := List.forall_mem_cons.mp hle
      have hbound := sum_le_length_filter hrest
      have hih := ih hrest
      rw [List.map_cons, List.sum_cons, List.filter_cons, List.forall_mem_cons]
      split_ifs with hp
      · rw [decide_eq_true_eq] at hp
        rw [if_pos hp] at hfirst
        rw [List.length_cons]
        constructor
        · intro heq
          exact ⟨fun _ => by omega, hih.mp (by omega)⟩
        · rintro ⟨hone, hall⟩
          have hone := hone hp
          have heq := hih.mpr hall
          omega
      · rw [decide_eq_true_eq] at hp
        rw [if_neg hp] at hfirst
        have hzero : f a = 0 := by omega
        rw [hzero, Nat.zero_add]
        exact ⟨fun heq => ⟨fun hp' => absurd hp' hp, hih.mp heq⟩, fun h => hih.mpr h.2⟩

namespace SingleTypeKVCacheManager

/-- The first `k` blocks of a request are the first `k` of every request that holds blocks in the
group. -/
def CommonPrefix (manager : SingleTypeKVCacheManager) (r : RequestId) (k : ℕ) : Prop :=
  k ≤ (manager.getBlocks r).length ∧ ∀ r', manager.getBlocks r' ≠ [] →
    (manager.getBlocks r').take k = (manager.getBlocks r).take k

/-- The hashes of those who hold blocks differ from index to index. -/
def Apart (manager : SingleTypeKVCacheManager) (hashes : RequestId → List H) : Prop :=
  ∀ (r r' : RequestId) (i i' : ℕ) (key : H), manager.getBlocks r ≠ [] → manager.getBlocks r' ≠ [] →
    (hashes r)[i]? = some key → (hashes r')[i']? = some key → i = i'

theorem count_held (manager : SingleTypeKVCacheManager) (b : BlockId) :
    manager.held.count b = (manager.reqToBlocks.items.map fun entry => entry.2.count b).sum := by
  have hone := count_heldBlocks [manager] b
  rw [heldBlocks_cons, heldBlocks_nil, add_zero] at hone
  simpa [occurrences] using hone

theorem getBlocks_of_mem {manager : SingleTypeKVCacheManager} {entry : RequestId × List BlockId}
    (h : entry ∈ manager.reqToBlocks.items) : manager.getBlocks entry.1 = entry.2 := by
  have hfind := (manager.reqToBlocks.find_eq_some_iff entry.1 entry.2).mpr h
  rw [getBlocks, Dict.findD, hfind]
  rfl

/-- What a group holds is in a table of it. -/
theorem exists_of_mem_held {manager : SingleTypeKVCacheManager} {b : BlockId}
    (h : b ∈ manager.held) : ∃ r, b ∈ manager.getBlocks r := by
  rw [← Multiset.one_le_count_iff_mem, count_held] at h
  by_contra hnone
  push Not at hnone
  have hzero : (manager.reqToBlocks.items.map fun entry => entry.2.count b).sum = 0 := by
    apply List.sum_eq_zero
    intro n hn
    obtain ⟨entry, hentry, rfl⟩ := List.mem_map.mp hn
    rw [← getBlocks_of_mem hentry]
    exact List.count_eq_zero_of_not_mem (hnone entry.1)
  omega

theorem mem_items_of_holder {manager : SingleTypeKVCacheManager} {r : RequestId}
    (h : manager.getBlocks r ≠ []) : (r, manager.getBlocks r) ∈ manager.reqToBlocks.items := by
  rw [← Dict.find_eq_some_iff]
  unfold getBlocks Dict.findD at h ⊢
  cases hfind : manager.reqToBlocks.find r with
  | none => rw [hfind] at h; exact absurd rfl h
  | some blocks => rfl

end SingleTypeKVCacheManager

section CommonPrefix

open SingleTypeKVCacheManager

variable {hashes : RequestId → List H} {pool : BlockPool H} {free : List BlockId}
  {managers : List SingleTypeKVCacheManager} {manager : SingleTypeKVCacheManager}

/-- Whoever else has a block has it at the same index, and once. -/
theorem Marked.index_eq (h : Marked hashes pool managers)
    (hbooks : Accounts pool free (heldBlocks managers))
    (hgroups : (managers.map (·.kvCacheGroupId)).Nodup) (hm : manager ∈ managers)
    (hapart : manager.Apart hashes) {r r' : RequestId} {i i' : ℕ} {b : BlockId}
    (hnn : (pool.blocks b).isNull = false) (hb : (manager.getBlocks r)[i]? = some b)
    (hb' : (manager.getBlocks r')[i']? = some b) : i = i' := by
  obtain ⟨-, ⟨-, heq⟩ | ⟨key, hkey, hkey'⟩⟩ := h.aligned hbooks hgroups hm hm hnn hb hb'
  · exact heq
  · exact hapart r r' i i' key (List.ne_nil_of_mem (List.mem_of_getElem? hb))
      (List.ne_nil_of_mem (List.mem_of_getElem? hb')) hkey hkey'

/-- The references of a block are as many as the holders just when all of these have it, at its
index. -/
theorem Marked.refCnt_eq_iff (h : Marked hashes pool managers)
    (hbooks : Accounts pool free (heldBlocks managers))
    (hgroups : (managers.map (·.kvCacheGroupId)).Nodup) (hm : manager ∈ managers)
    (hapart : manager.Apart hashes) {r : RequestId} {i : ℕ} {b : BlockId}
    (hnn : (pool.blocks b).isNull = false) (hb : (manager.getBlocks r)[i]? = some b) :
    (pool.blocks b).refCnt = (manager.reqToBlocks.items.filter fun entry => entry.2 ≠ []).length ↔
      ∀ r', manager.getBlocks r' ≠ [] → (manager.getBlocks r')[i]? = some b := by
  have hone : ∀ r', (manager.getBlocks r').count b ≤ 1 := by
    intro r'
    by_contra htwo
    have hdup : List.Duplicate b (manager.getBlocks r') :=
      List.duplicate_iff_two_le_count.mpr (by omega)
    obtain ⟨j, j', hlt, hj, hj'⟩ := List.duplicate_iff_exists_distinct_get.mp hdup
    have heq := h.index_eq hbooks hgroups hm hapart hnn
      (List.getElem?_eq_some_iff.mpr ⟨j.isLt, hj.symm⟩)
      (List.getElem?_eq_some_iff.mpr ⟨j'.isLt, hj'.symm⟩)
    omega
  have honly : ∀ other ∈ managers, b ∈ other.held → other = manager := by
    intro other hother hheld
    obtain ⟨r', hmem⟩ := exists_of_mem_held hheld
    obtain ⟨j, hj⟩ := List.getElem?_of_mem hmem
    exact (h.aligned hbooks hgroups hother hm hnn hj hb).1
  rw [hbooks.refCnt_eq b hnn, count_heldBlocks_eq hm hgroups honly, count_held,
    sum_eq_length_filter_iff (p := fun entry : RequestId × List BlockId => entry.2 ≠ [])]
  · constructor
    · intro hall r' hr'
      have hcount := hall _ (mem_items_of_holder hr') hr'
      obtain ⟨j, hj⟩ := List.getElem?_of_mem (List.one_le_count_iff.mp hcount.ge)
      obtain rfl := h.index_eq hbooks hgroups hm hapart hnn hb hj
      exact hj
    · intro hall entry hentry hne
      rw [← getBlocks_of_mem hentry] at hne ⊢
      have hpos := List.one_le_count_iff.mpr (List.mem_of_getElem? (hall entry.1 hne))
      have hle := hone entry.1
      omega
  · intro entry hentry
    rw [← getBlocks_of_mem hentry]
    split_ifs with hne
    · exact hone entry.1
    · rw [not_not] at hne
      rw [hne]
      exact le_rfl

namespace KVCacheManager

/-- What the function answers for a full-attention group is the longest common prefix. -/
theorem getNumCommonPrefixBlocks_greatest {m : KVCacheManager H} (h : m.InOrder free)
    (hmarks : m.Marks hashes) (hm : manager ∈ m.singleTypeManagers)
    (hfull : manager.kvCacheSpec.isFullAttention = true) (hapart : manager.Apart hashes)
    (r : RequestId) : IsGreatest {k | manager.CommonPrefix r k}
      (manager.getNumCommonPrefixBlocks m.blockPool r) := by
  unfold SingleTypeKVCacheManager.getNumCommonPrefixBlocks
  rw [if_pos hfull]
  dsimp only
  convert isGreatest_takeWhile _ _ using 1
  ext k
  refine and_congr_right fun hk => ?_
  have hentry : ∀ i b, (manager.getBlocks r)[i]? = some b →
      ((m.blockPool.blocks b).refCnt =
        (manager.reqToBlocks.items.filter fun entry => entry.2 ≠ []).length ↔
      ∀ r', manager.getBlocks r' ≠ [] → (manager.getBlocks r')[i]? = some b) :=
    fun i b hb => hmarks.refCnt_eq_iff h.books h.toConfigured.groupIds_nodup hm hapart
      (hmarks.filled manager hm hfull r b (List.mem_of_getElem? hb)) hb
  constructor
  · intro hcommon b hb
    obtain ⟨i, hi⟩ := List.getElem?_of_mem hb
    obtain ⟨hlt, hi⟩ := getElem?_of_take hi
    rw [decide_eq_true_eq, hentry i b hi]
    intro r' hr'
    have hsame := congrArg (fun l => l[i]?) (hcommon r' hr')
    simpa [List.getElem?_take, hlt, hi] using hsame
  · intro hall r' hr'
    apply List.ext_getElem?
    intro i
    rw [List.getElem?_take, List.getElem?_take]
    split_ifs with hlt
    · have hi : (manager.getBlocks r)[i]? = some (manager.getBlocks r)[i] :=
        List.getElem?_eq_getElem (by omega)
      have hmem : (manager.getBlocks r)[i] ∈ (manager.getBlocks r).take k :=
        List.mem_of_getElem? (i := i) (by rw [List.getElem?_take, if_pos hlt, hi])
      have hrefs := hall _ hmem
      rw [decide_eq_true_eq, hentry i _ hi] at hrefs
      rw [hi]
      exact hrefs r' hr'
    · rfl

end KVCacheManager

end CommonPrefix

end Pvllm
