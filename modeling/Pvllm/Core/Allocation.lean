import Pvllm.Core.Ownership
import Mathlib.Data.List.TakeWhile

/-!
What each call on the manager does.

One lemma per method of `KVCacheManager`, from a manager whose books balance:
which tables change and how, which blocks move, which hashes appear, and that
the books balance after. The invariants of later modules are derived from
these lemmas, never from the code.
-/

namespace Pvllm

variable {H : Type} [DecidableEq H]

/-! ### Publishing -/

/-- Offering a request's full blocks changes nothing but hashes: a block that
gets one sits in the request's table at the index its hash is for, and after it
no full block of the table is without. -/
structure Published (managers : List SingleTypeKVCacheManager) (request : Request H)
    (numFullBlocks : ℕ) (pool pool' : BlockPool H) : Prop where
  frame : pool.SameFrame pool'
  same : ∀ c, (pool'.blocks c).refCnt = (pool.blocks c).refCnt ∧
    (pool'.blocks c).isNull = (pool.blocks c).isNull
  keeps : ∀ c, (pool.blocks c).blockHash ≠ none →
    (pool'.blocks c).blockHash = (pool.blocks c).blockHash
  sound : ∀ c key, (pool'.blocks c).blockHash = some key → (pool.blocks c).blockHash = none →
    ∃ manager ∈ managers, ∃ i, i < numFullBlocks ∧
      (manager.getBlocks request.requestId)[i]? = some c ∧
      request.blockHashes[i]? = some key.1 ∧ key.2 = manager.kvCacheGroupId
  complete : ∀ manager ∈ managers, ∀ i, i < numFullBlocks → i < request.blockHashes.length →
    ∀ c, (manager.getBlocks request.requestId)[i]? = some c → (pool.blocks c).isNull = false →
      (pool'.blocks c).blockHash ≠ none

namespace KVCacheManager

theorem zip_take_drop_mem {α β : Type*} {l : List α} {l' : List β} {n k : ℕ} {entry : α × β}
    (h : entry ∈ ((l.zip l').take n).drop k) :
    ∃ i, i < n ∧ l[i]? = some entry.1 ∧ l'[i]? = some entry.2 := by
  obtain ⟨j, hj⟩ := List.getElem?_of_mem h
  rw [List.getElem?_drop] at hj
  obtain ⟨hlt, hzip⟩ := getElem?_of_take hj
  obtain ⟨ha, hb⟩ := List.getElem?_zip_eq_some.mp hzip
  exact ⟨k + j, hlt, ha, hb⟩

theorem cacheGroupBlocks_spec {pool : BlockPool H} {free : List BlockId}
    (h : pool.WellFormed free) {request : Request H} (numFullBlocks : ℕ)
    {manager : SingleTypeKVCacheManager}
    (hlt : ∀ b ∈ manager.getBlocks request.requestId, b < pool.numGpuBlocks) :
    (cacheGroupBlocks request numFullBlocks pool manager).WellFormed free ∧
      Published [manager] request numFullBlocks pool
        (cacheGroupBlocks request numFullBlocks pool manager) := by
  unfold cacheGroupBlocks
  set blocks := manager.getBlocks request.requestId with hblocks
  by_cases hnil : blocks = []
  · rw [if_pos hnil]
    refine ⟨h, BlockPool.SameFrame.refl _, fun _ => ⟨rfl, rfl⟩, fun _ _ => rfl,
      fun c key hkey hnone => ?_, ?_⟩
    · rw [hkey] at hnone
      cases hnone
    · intro m hm i _ _ c hc
      rw [List.mem_singleton.mp hm, ← hblocks, hnil] at hc
      cases hc
  rw [if_neg hnil]
  set dealt := fun b => (pool.blocks b).blockHash.isSome || (pool.blocks b).isNull with hdealt
  set cached := (blocks.takeWhile dealt).length with hcached
  unfold BlockPool.cacheFullBlocks
  set entries := ((request.blockHashes.zip blocks).take numFullBlocks).drop cached with hentries
  obtain ⟨hwf, hframe, hfinal⟩ := h.cacheEntries manager.kvCacheGroupId entries
    (fun entry he => by
      obtain ⟨i, -, -, hi⟩ := zip_take_drop_mem he
      exact hlt _ (List.mem_of_getElem? hi))
  refine ⟨hwf, hframe, fun c => ⟨(hfinal c).1, (hfinal c).2.1⟩, fun c hc => ?_,
    fun c key hkey hnone => ?_, ?_⟩
  · rw [(hfinal c).2.2, BlockPool.publishedHash, if_pos (Or.inl hc)]
  · rw [(hfinal c).2.2, BlockPool.publishedHash] at hkey
    split at hkey
    · rw [hnone] at hkey
      cases hkey
    · obtain ⟨entry, hfind, rfl⟩ := Option.map_eq_some_iff.mp hkey
      obtain ⟨i, hi, hh, hb⟩ := zip_take_drop_mem (List.mem_of_find?_eq_some hfind)
      have hentry := List.find?_some hfind
      refine ⟨manager, List.mem_singleton_self _, i, hi, ?_, hh, rfl⟩
      rw [← hblocks, hb, of_decide_eq_true hentry]
  · intro m hm i hfull hhash c hc hnn
    rw [List.mem_singleton.mp hm, ← hblocks] at hc
    rw [(hfinal c).2.2, BlockPool.publishedHash]
    split
    · rename_i hkept
      exact hkept.resolve_right (by simp [hnn])
    · rename_i hfresh
      rw [not_or, not_not] at hfresh
      -- The leading run ends before the block: it is neither hashed nor null.
      have hge : cached ≤ i := by
        by_contra hlt'
        have hmem : c ∈ blocks.takeWhile dealt := by
          have hsplit := List.takeWhile_append_dropWhile (p := dealt) (l := blocks)
          rw [← hsplit, List.getElem?_append_left (by omega)] at hc
          exact List.mem_of_getElem? hc
        have hyes := List.mem_takeWhile_imp hmem
        simp [hdealt, hfresh.1, hnn] at hyes
      obtain ⟨blockHash, hbh⟩ : ∃ blockHash, request.blockHashes[i]? = some blockHash :=
        ⟨_, List.getElem?_eq_getElem hhash⟩
      have hentry : (blockHash, c) ∈ entries := by
        refine List.mem_of_getElem? (i := i - cached) ?_
        rw [hentries, List.getElem?_drop, Nat.add_sub_cancel' hge, List.getElem?_take, if_pos hfull]
        exact List.getElem?_zip_eq_some.mpr ⟨hbh, hc⟩
      intro hcontra
      rw [Option.map_eq_none_iff, List.find?_eq_none] at hcontra
      exact hcontra _ hentry (by simp)

theorem cacheGroups_spec (managers : List SingleTypeKVCacheManager) {pool : BlockPool H}
    {free : List BlockId} (h : pool.WellFormed free) (request : Request H) (numFullBlocks : ℕ)
    (hlt : ∀ manager ∈ managers, ∀ b ∈ manager.getBlocks request.requestId,
      b < pool.numGpuBlocks) :
    (managers.foldl (cacheGroupBlocks request numFullBlocks) pool).WellFormed free ∧
      Published managers request numFullBlocks pool
        (managers.foldl (cacheGroupBlocks request numFullBlocks) pool) := by
  induction managers generalizing pool with
  | nil =>
      refine ⟨h, BlockPool.SameFrame.refl _, fun _ => ⟨rfl, rfl⟩, fun _ _ => rfl,
        fun c key hkey hnone => ?_, fun m hm => absurd hm List.not_mem_nil⟩
      rw [List.foldl_nil, hnone] at hkey
      cases hkey
  | cons manager managers ih =>
      obtain ⟨hfirst, hrest⟩ := List.forall_mem_cons.mp hlt
      obtain ⟨hwf₁, hpub₁⟩ := cacheGroupBlocks_spec h numFullBlocks hfirst
      rw [← hpub₁.frame.numGpuBlocks] at hrest
      obtain ⟨hwf, hpub⟩ := ih hwf₁ hrest
      refine ⟨hwf, hpub₁.frame.trans hpub.frame, fun c => ?_, fun c hc => ?_,
        fun c key hkey hnone => ?_, ?_⟩
      · rw [List.foldl_cons, (hpub.same c).1, (hpub.same c).2]
        exact hpub₁.same c
      · have hsame := hpub₁.keeps c hc
        rw [List.foldl_cons, hpub.keeps c (by rwa [hsame]), hsame]
      · rw [List.foldl_cons] at hkey
        by_cases hmid :
            ((cacheGroupBlocks request numFullBlocks pool manager).blocks c).blockHash = none
        · obtain ⟨m, hm, hi⟩ := hpub.sound c key hkey hmid
          exact ⟨m, List.mem_cons_of_mem _ hm, hi⟩
        · rw [hpub.keeps c hmid] at hkey
          obtain ⟨m, hm, hi⟩ := hpub₁.sound c key hkey hnone
          exact ⟨m, List.mem_singleton.mp hm ▸ List.mem_cons_self, hi⟩
      · intro m hm i hfull hhash c hc hnn
        rw [List.foldl_cons]
        rcases List.mem_cons.mp hm with rfl | hm
        · have hmid := hpub₁.complete m (List.mem_singleton_self _) i hfull hhash c hc hnn
          rwa [hpub.keeps c hmid]
        · exact hpub.complete m hm i hfull hhash c hc (by rwa [(hpub₁.same c).2])

/-! ### A manager in order -/

def groups (manager : KVCacheManager H) : List (ℕ × KVCacheSpec) :=
  manager.singleTypeManagers.map fun group => (group.kvCacheGroupId, group.kvCacheSpec)

/-- Two managers over the same layout, with the same switches. -/
structure SameSetup (m m' : KVCacheManager H) : Prop where
  kvCacheConfig : m'.kvCacheConfig = m.kvCacheConfig
  maxModelLen : m'.maxModelLen = m.maxModelLen
  enableCaching : m'.enableCaching = m.enableCaching
  blockHasher : m'.blockHasher = m.blockHasher
  groups : m'.groups = m.groups
  frame : m.blockPool.SameFrame m'.blockPool

omit [DecidableEq H] in
theorem SameSetup.refl (m : KVCacheManager H) : SameSetup m m :=
  ⟨rfl, rfl, rfl, rfl, rfl, BlockPool.SameFrame.refl _⟩

omit [DecidableEq H] in
theorem SameSetup.trans {m₁ m₂ m₃ : KVCacheManager H} (h : SameSetup m₁ m₂)
    (h' : SameSetup m₂ m₃) : SameSetup m₁ m₃ :=
  ⟨h'.1.trans h.1, h'.2.trans h.2, h'.3.trans h.3, h'.4.trans h.4, h'.5.trans h.5,
    h.6.trans h'.6⟩

/-- One manager per configured group, over a pool with the null block the
groups ask for and the caching switch of the manager. -/
structure Configured (manager : KVCacheManager H) : Prop where
  groups : manager.groups = manager.kvCacheConfig.kvCacheGroups.mapIdx fun i spec => (i, spec)
  nonempty : manager.kvCacheConfig.kvCacheGroups ≠ []
  reserved : manager.hasSkippingGroups = true → manager.blockPool.nullBlock.isSome
  caching : manager.blockPool.enableCaching = manager.enableCaching

/-- Configured, and the books balance against the tables. -/
structure InOrder (manager : KVCacheManager H) (free : List BlockId) : Prop
    extends Configured manager where
  books : Accounts manager.blockPool free (heldBlocks manager.singleTypeManagers)

section InOrder

variable {m m' : KVCacheManager H} {free free' : List BlockId} {request : Request H}

omit [DecidableEq H] in
theorem Configured.of_sameSetup (h : m.Configured) (hs : SameSetup m m') : m'.Configured where
  groups := by rw [hs.groups, hs.kvCacheConfig, h.groups]
  nonempty := by rw [hs.kvCacheConfig]; exact h.nonempty
  reserved := by
    rw [hs.frame.nullBlock]
    unfold hasSkippingGroups
    rw [hs.kvCacheConfig]
    exact h.reserved
  caching := by rw [hs.frame.enableCaching, hs.enableCaching, h.caching]

theorem InOrder.of_sameSetup (h : m.InOrder free) (hs : SameSetup m m')
    (hbooks : Accounts m'.blockPool free' (heldBlocks m'.singleTypeManagers)) :
    m'.InOrder free' :=
  ⟨h.toConfigured.of_sameSetup hs, hbooks⟩

omit [DecidableEq H] in
/-- The specs of the managers are those configured. -/
theorem Configured.spec_mem (h : m.Configured) {manager : SingleTypeKVCacheManager}
    (hm : manager ∈ m.singleTypeManagers) :
    manager.kvCacheSpec ∈ m.kvCacheConfig.kvCacheGroups := by
  have hmem : (manager.kvCacheGroupId, manager.kvCacheSpec) ∈ m.groups :=
    List.mem_map_of_mem (f := fun group : SingleTypeKVCacheManager =>
      (group.kvCacheGroupId, group.kvCacheSpec)) hm
  rw [h.groups] at hmem
  obtain ⟨i, hi, heq⟩ := List.mem_mapIdx.mp hmem
  rw [← (Prod.mk.inj heq).2]
  exact List.getElem_mem hi

omit [DecidableEq H] in
theorem Configured.blockSize_eq (h : m.Configured) {manager : SingleTypeKVCacheManager}
    (hm : manager ∈ m.singleTypeManagers) :
    manager.kvCacheSpec.blockSize = m.kvCacheConfig.blockSize :=
  m.kvCacheConfig.uniform _ (h.spec_mem hm)

omit [DecidableEq H] in
theorem Configured.reserved_of_mem (h : m.Configured) {manager : SingleTypeKVCacheManager}
    (hm : manager ∈ m.singleTypeManagers) (hskip : manager.kvCacheSpec.isSkipping = true) :
    m.blockPool.nullBlock.isSome :=
  h.reserved (List.any_eq_true.mpr ⟨_, h.spec_mem hm, hskip⟩)

omit [DecidableEq H] in
theorem Configured.managers_ne_nil (h : m.Configured) : m.singleTypeManagers ≠ [] := by
  intro hnil
  have hlen := congrArg List.length h.groups
  rw [List.length_mapIdx, KVCacheManager.groups, hnil, List.map_nil, List.length_nil] at hlen
  exact h.nonempty (List.length_eq_zero_iff.mp hlen.symm)

/-! ### Lookup -/

/-- The blocks a lookup answered with: one list per group, each entry the
cached block for its index or the null block. -/
def Hits (m : KVCacheManager H) (request : Request H) (hits : List (List BlockId)) : Prop :=
  List.Forall₂ (fun manager blocks => ∀ i b, blocks[i]? = some b →
    (m.blockPool.blocks b).isNull = false →
      cachedAt m.blockPool manager.kvCacheGroupId request.blockHashes i = some b)
    m.singleTypeManagers hits

omit [DecidableEq H] in
theorem forall₂_emptyBlocks {R : SingleTypeKVCacheManager → List BlockId → Prop}
    (hR : ∀ manager, R manager []) : List.Forall₂ R m.singleTypeManagers m.emptyBlocks := by
  unfold emptyBlocks
  rw [List.forall₂_map_right_iff, List.forall₂_same]
  exact fun manager _ => hR manager

theorem hits_emptyBlocks : Hits m request m.emptyBlocks :=
  forall₂_emptyBlocks fun _ i b hb => by simp at hb

omit [DecidableEq H] in
@[simp] theorem emptyBlocks_flatten : m.emptyBlocks.flatten = [] := by
  simp [emptyBlocks]

/-- Looking up counts the lookup, and changes nothing else. -/
theorem getComputedBlocks_ok {hits : List (List BlockId)} {numComputedTokens : ℕ}
    (h : m.InOrder free) (hok : m.getComputedBlocks request = .ok ((hits, numComputedTokens), m')) :
    SameSetup m m' ∧ m'.blockPool = m.blockPool ∧
      m'.singleTypeManagers = m.singleTypeManagers ∧ Hits m request hits := by
  unfold getComputedBlocks at hok
  split at hok
  · simp only [Except.ok.injEq, Prod.mk.injEq] at hok
    obtain ⟨⟨rfl, -⟩, rfl⟩ := hok
    exact ⟨SameSetup.refl _, rfl, rfl, hits_emptyBlocks⟩
  · split at hok
    · cases hok
    rename_i perGroup l hfind
    have hcached := KVCacheCoordinator.findLongestCacheHit_cached h.books.wf.nullFree hfind
    dsimp only at hok
    split at hok
    · simp only [Except.ok.injEq, Prod.mk.injEq] at hok
      obtain ⟨⟨rfl, -⟩, rfl⟩ := hok
      exact ⟨⟨rfl, rfl, rfl, rfl, rfl, BlockPool.SameFrame.refl _⟩, rfl, rfl, hits_emptyBlocks⟩
    · simp only [Except.ok.injEq, Prod.mk.injEq] at hok
      obtain ⟨⟨rfl, -⟩, rfl⟩ := hok
      exact ⟨⟨rfl, rfl, rfl, rfl, rfl, BlockPool.SameFrame.refl _⟩, rfl, rfl, hcached⟩

/-- The hits of a lookup are blocks of the pool. -/
theorem Hits.lt (h : m.InOrder free) {hits : List (List BlockId)} (hh : Hits m request hits)
    {b : BlockId} (hb : b ∈ hits.flatten) (hnn : (m.blockPool.blocks b).isNull = false) :
    b < m.blockPool.numGpuBlocks := by
  obtain ⟨blocks, hblocks, hb⟩ := List.mem_flatten.mp hb
  obtain ⟨j, hj⟩ := List.getElem?_of_mem hblocks
  obtain ⟨i, hi⟩ := List.getElem?_of_mem hb
  obtain ⟨hlen, hget⟩ := List.forall₂_iff_get.mp hh
  obtain ⟨hjlt, rfl⟩ := List.getElem?_eq_some_iff.mp hj
  have hcached := hget j (by omega) hjlt i b (by simpa using hi) hnn
  unfold cachedAt at hcached
  split at hcached
  · cases hcached
  · refine h.books.wf.hashed_lt b ?_
    rw [h.books.wf.getCachedBlock_hash hcached]
    exact Option.some_ne_none _

/-! ### Allocation -/

/-- Adopting takes a reference to the hits and fills tables that were empty, or
does nothing when there is no hit. -/
theorem adoptHits_ok (h : m.InOrder free) {r : RequestId} {hits : List (List BlockId)}
    {adopted : List SingleTypeKVCacheManager} {pool : BlockPool H}
    (hlt : ∀ b ∈ m.cachedBlocks hits, b < m.blockPool.numGpuBlocks)
    (hok : m.adoptHits r hits = .ok (adopted, pool)) :
    (m.cachedBlocks hits = [] ∧ adopted = m.singleTypeManagers ∨
      m.cachedBlocks hits ≠ [] ∧ hits.length = m.singleTypeManagers.length ∧
        (∀ manager ∈ m.singleTypeManagers, manager.getBlocks r = []) ∧
        adopted = m.singleTypeManagers.zipWith
          (fun manager blocks => manager.setBlocks r blocks) hits) ∧
      Accounts pool (free.diff (m.cachedBlocks hits)) (heldBlocks adopted) ∧
      m.blockPool.SameFrame pool ∧
      ∀ c, pool.blocks c = (m.blockPool.blocks c).withRefCnt
        ((m.blockPool.blocks c).refCnt + (m.cachedBlocks hits).count c) := by
  unfold adoptHits at hok
  split at hok
  · rename_i hnil
    simp only [Except.ok.injEq, Prod.mk.injEq] at hok
    obtain ⟨rfl, rfl⟩ := hok
    refine ⟨Or.inl ⟨hnil, rfl⟩, ?_, BlockPool.SameFrame.refl _, fun c => ?_⟩
    · rw [hnil, List.diff_nil]
      exact h.books
    · rw [hnil, List.count_nil]
      rfl
  · rename_i hne
    obtain ⟨pool₁, htouch, hacc, hframe, hblocks⟩ := h.books.touch hlt
    rw [htouch] at hok
    dsimp only at hok
    split at hok
    · cases hok
    rename_i managers₁ hok₁
    simp only [Except.ok.injEq, Prod.mk.injEq] at hok
    obtain ⟨rfl, rfl⟩ := hok
    obtain ⟨hlen, hempty, hzip, hheld⟩ := KVCacheCoordinator.adoptCachedBlocks_ok hok₁
    refine ⟨Or.inr ⟨hne, hlen, hempty, hzip⟩, ?_, hframe, hblocks⟩
    rw [hheld]
    refine hacc.congr_held (fun b hb => ?_) fun b hb => ?_
    · rw [hblocks, KVCacheBlock.withRefCnt_isNull] at hb
      rw [Multiset.count_add, Multiset.count_add, Multiset.coe_count, Multiset.coe_count,
        cachedBlocks, List.count_filter (by simp [hb])]
    · rw [hframe.numGpuBlocks]
      rcases Multiset.mem_add.mp hb with hb | hb
      · exact h.books.held_lt b hb
      · cases hnn : (m.blockPool.blocks b).isNull with
        | false => exact hlt b (List.mem_filter.mpr ⟨Multiset.mem_coe.mp hb, by simp [hnn]⟩)
        | true => exact h.books.wf.null_lt b ((h.books.wf.isNull_iff b).mp hnn)

/-- What an allocation that went through has done: the hits were adopted into
tables that were empty (`adopted`), the blocks still missing were popped off
the queue (`mid`), and the full blocks were published. -/
structure Allocates (m m' : KVCacheManager H) (free free' : List BlockId) (request : Request H)
    (hits news : List (List BlockId)) (numTokens : ℕ) (published : Option ℕ)
    (adopted : List SingleTypeKVCacheManager) (mid : BlockPool H) : Prop where
  adopted_eq : m.cachedBlocks hits = [] ∧ adopted = m.singleTypeManagers ∨
    m.cachedBlocks hits ≠ [] ∧ hits.length = m.singleTypeManagers.length ∧
      (∀ manager ∈ m.singleTypeManagers, manager.getBlocks request.requestId = []) ∧
      adopted = m.singleTypeManagers.zipWith
        (fun manager blocks => manager.setBlocks request.requestId blocks) hits
  enough : KVCacheCoordinator.totalMissing adopted request.requestId numTokens ≤
    (free.diff (m.cachedBlocks hits)).length
  news_flatten : news.flatten = (free.diff (m.cachedBlocks hits)).take
    (KVCacheCoordinator.totalMissing adopted request.requestId numTokens)
  free_eq : free' = (free.diff (m.cachedBlocks hits)).drop
    (KVCacheCoordinator.totalMissing adopted request.requestId numTokens)
  news_length : news.map List.length =
    adopted.map (·.numMissingBlocks request.requestId numTokens)
  managers_eq : m'.singleTypeManagers =
    adopted.zipWith (SingleTypeKVCacheManager.extend request.requestId) news
  mid_blocks : ∀ c, mid.blocks c =
    if c ∈ news.flatten then ⟨1, none, false⟩
    else (m.blockPool.blocks c).withRefCnt
      ((m.blockPool.blocks c).refCnt + (m.cachedBlocks hits).count c)
  mid_frame : m.blockPool.SameFrame mid
  mid_books : Accounts mid free' (heldBlocks m'.singleTypeManagers)
  pool_eq : match published with
    | none => m'.blockPool = mid
    | some numFullBlocks =>
      Published m'.singleTypeManagers request numFullBlocks mid m'.blockPool
  setup : SameSetup m m'
  order : m'.InOrder free'

omit [DecidableEq H] in
theorem groups_zipWith {β : Type*} {f : SingleTypeKVCacheManager → β → SingleTypeKVCacheManager}
    (hf : ∀ manager b, (f manager b).kvCacheGroupId = manager.kvCacheGroupId ∧
      (f manager b).kvCacheSpec = manager.kvCacheSpec)
    {managers : List SingleTypeKVCacheManager} {l : List β} (hlen : l.length = managers.length) :
    (managers.zipWith f l).map (fun group => (group.kvCacheGroupId, group.kvCacheSpec)) =
      managers.map fun group => (group.kvCacheGroupId, group.kvCacheSpec) := by
  induction managers generalizing l with
  | nil => simp
  | cons manager managers ih =>
      cases l with
      | nil => cases hlen
      | cons b l =>
          obtain ⟨hid, hspec⟩ := hf manager b
          rw [List.zipWith_cons_cons, List.map_cons, List.map_cons, hid, hspec,
            ih (by simpa using hlen)]

def numFullBlocks (m : KVCacheManager H) (request : Request H) (numTokens : ℕ) : ℕ :=
  min (numTokens / m.kvCacheConfig.blockSize) request.blockHashes.length

/-- What `allocate_slots` publishes: the blocks full once the new tokens are
computed, unless that is delayed. -/
def publishedBlocks (m : KVCacheManager H) (request : Request H)
    (numNewTokens numNewComputedTokens : ℕ) (delayCacheBlocks : Bool) : Option ℕ :=
  if m.enableCaching ∧ delayCacheBlocks = false then
    some (m.numFullBlocks request (request.numComputedTokens + numNewComputedTokens + numNewTokens))
  else
    none

/-- An allocation either declines and changes nothing, or goes through. -/
theorem allocateSlots_ok (h : m.InOrder free) {numNewTokens numNewComputedTokens : ℕ}
    {newComputedBlocks : Option (List (List BlockId))} {numLookaheadTokens : ℕ}
    {delayCacheBlocks : Bool} {result : Option (List (List BlockId))}
    (hlt : ∀ b ∈ m.cachedBlocks (m.perGroupCached newComputedBlocks),
      b < m.blockPool.numGpuBlocks)
    (hok : m.allocateSlots request numNewTokens numNewComputedTokens newComputedBlocks
      numLookaheadTokens delayCacheBlocks = .ok (result, m')) :
    result = none ∧ m' = m ∨
    ∃ news free' adopted mid, result = some news ∧
      Allocates m m' free free' request (m.perGroupCached newComputedBlocks) news
        (m.numTokensNeedingSlots request numNewTokens numNewComputedTokens numLookaheadTokens)
        (m.publishedBlocks request numNewTokens numNewComputedTokens delayCacheBlocks)
        adopted mid := by
  unfold allocateSlots at hok
  split at hok
  · cases hok
  dsimp only at hok
  split at hok
  · cases hok
  rename_i numBlocksToAllocate hcharge
  split at hok
  · simp only [Except.ok.injEq, Prod.mk.injEq] at hok
    exact Or.inl ⟨hok.1.symm, hok.2.symm⟩
  split at hok
  · cases hok
  rename_i adopted pool hadopt
  split at hok
  · cases hok
  rename_i news managers mid hnew
  set hits := m.perGroupCached newComputedBlocks with hhits
  set numTokens := m.numTokensNeedingSlots request numNewTokens numNewComputedTokens
    numLookaheadTokens with hnumTokens
  -- the hits are taken over, and the new blocks are handed out
  obtain ⟨hadopted, hacc, hframe, hblocks⟩ := adoptHits_ok h hlt hadopt
  rw [← zero_add (heldBlocks adopted)] at hacc
  obtain ⟨henough, hflat, hlens, rfl, hmid, hframe', hblocks'⟩ :=
    KVCacheCoordinator.allocateNewBlocks_ok hacc hnew
  rw [zero_add] at hmid
  have hsetup : SameSetup m { m with
      blockPool := mid
      singleTypeManagers :=
        adopted.zipWith (SingleTypeKVCacheManager.extend request.requestId) news } := by
    refine ⟨rfl, rfl, rfl, rfl, ?_, hframe.trans hframe'⟩
    have hlen : news.length = adopted.length := by simpa using congrArg List.length hlens
    refine (groups_zipWith (f := SingleTypeKVCacheManager.extend request.requestId)
      (fun _ _ => ⟨rfl, rfl⟩) hlen).trans ?_
    rcases hadopted with ⟨-, rfl⟩ | ⟨-, hlen', -, rfl⟩
    · rfl
    · exact groups_zipWith
        (f := fun manager blocks => manager.setBlocks request.requestId blocks)
        (fun _ _ => ⟨rfl, rfl⟩) hlen'
  have hmidBlocks : ∀ c, mid.blocks c = if c ∈ news.flatten then ⟨1, none, false⟩
      else (m.blockPool.blocks c).withRefCnt
        ((m.blockPool.blocks c).refCnt + (m.cachedBlocks hits).count c) := by
    intro c
    rw [hblocks', hblocks]
  right
  -- what is full now is published, unless that is put off
  split at hok
  · rename_i hpublish
    simp only [Except.ok.injEq, Prod.mk.injEq] at hok
    obtain ⟨rfl, rfl⟩ := hok
    obtain ⟨hwf, hpub⟩ := cacheGroups_spec
      (adopted.zipWith (SingleTypeKVCacheManager.extend request.requestId) news) hmid.wf request
      (m.numFullBlocks request
        (request.numComputedTokens + numNewComputedTokens + numNewTokens))
      (fun manager hm b hb => hmid.held_lt b
        (mem_heldBlocks.mpr ⟨manager, hm, SingleTypeKVCacheManager.mem_held hb⟩))
    have hsetup' : SameSetup m (({ m with
        blockPool := mid
        singleTypeManagers := adopted.zipWith
          (SingleTypeKVCacheManager.extend request.requestId) news } :
        KVCacheManager H).cacheFullBlocks request
          (request.numComputedTokens + numNewComputedTokens + numNewTokens)) :=
      hsetup.trans ⟨rfl, rfl, rfl, rfl, rfl, hpub.frame⟩
    refine ⟨news, _, adopted, mid, rfl, hadopted, henough, hflat, rfl, hlens, rfl, hmidBlocks,
      hframe.trans hframe', hmid, ?_, hsetup', ?_⟩
    · rw [publishedBlocks, if_pos hpublish]
      exact hpub
    · exact h.of_sameSetup hsetup' (hmid.of_same hwf hpub.frame hpub.same)
  · rename_i hdelay
    simp only [Except.ok.injEq, Prod.mk.injEq] at hok
    obtain ⟨rfl, rfl⟩ := hok
    refine ⟨news, _, adopted, mid, rfl, hadopted, henough, hflat, rfl, hlens, rfl, hmidBlocks,
      hframe.trans hframe', hmid, ?_, hsetup, h.of_sameSetup hsetup hmid⟩
    rw [publishedBlocks, if_neg hdelay]

/-! ### Release -/

/-- Shedding changes the head of one request's tables, and no hash. -/
theorem removeSkippedBlocks_spec (h : m.InOrder free) (request : Request H) :
    ∃ m' free', m.removeSkippedBlocks request = .ok m' ∧ m'.InOrder free' ∧ SameSetup m m' ∧
      (∀ c, (m'.blockPool.blocks c).isNull = (m.blockPool.blocks c).isNull ∧
        (m'.blockPool.blocks c).blockHash = (m.blockPool.blocks c).blockHash) ∧
      (m.hasSkippingGroups = false ∧ m' = m ∧ free' = free ∨
        List.Forall₂ (SingleTypeKVCacheManager.Sheds m.blockPool.nullBlock request.requestId
          request.numComputedTokens) m.singleTypeManagers m'.singleTypeManagers) := by
  unfold removeSkippedBlocks
  by_cases hskip : m.hasSkippingGroups = false
  · exact ⟨m, free, by rw [if_pos hskip], h, SameSetup.refl _, fun _ => ⟨rfl, rfl⟩,
      Or.inl ⟨hskip, rfl, rfl⟩⟩
  · have hbooks := h.books
    rw [← zero_add (heldBlocks _)] at hbooks
    obtain ⟨managers', pool', free', hok, hacc, hframe, hsame, hsheds⟩ :=
      KVCacheCoordinator.removeSkippedBlocks_spec request.requestId request.numComputedTokens
        hbooks fun manager hm => h.reserved_of_mem hm
    rw [zero_add] at hacc
    have hsetup : SameSetup m { m with blockPool := pool', singleTypeManagers := managers' } := by
      refine ⟨rfl, rfl, rfl, rfl, ?_, hframe⟩
      rw [groups, groups, ← List.forall₂_eq_eq_eq, List.forall₂_map_left_iff,
        List.forall₂_map_right_iff]
      exact hsheds.flip.imp fun _ _ hs =>
        Prod.ext (SingleTypeKVCacheManager.Sheds.group hs).1
          (SingleTypeKVCacheManager.Sheds.group hs).2
    refine ⟨_, free', ?_, h.of_sameSetup hsetup hacc, hsetup, hsame, Or.inr hsheds⟩
    rw [if_neg hskip, hok]

/-- Releasing a request empties its tables, and changes no hash. -/
theorem free_spec (h : m.InOrder free) (r : RequestId) :
    ∃ m' free', m.free r = .ok m' ∧ m'.InOrder free' ∧ SameSetup m m' ∧
      (∀ c, (m'.blockPool.blocks c).isNull = (m.blockPool.blocks c).isNull ∧
        (m'.blockPool.blocks c).blockHash = (m.blockPool.blocks c).blockHash) ∧
      m'.singleTypeManagers = m.singleTypeManagers.map (·.popBlocks r) := by
  unfold KVCacheManager.free
  have hbooks := h.books
  rw [← zero_add (heldBlocks _)] at hbooks
  obtain ⟨pool', free', hok, hacc, hframe, hsame⟩ := KVCacheCoordinator.free_spec (r := r) hbooks
  rw [zero_add] at hacc
  have hsetup : SameSetup m { m with
      blockPool := pool'
      singleTypeManagers := m.singleTypeManagers.map (·.popBlocks r) } := by
    refine ⟨rfl, rfl, rfl, rfl, ?_, hframe⟩
    simp [groups, Function.comp_def]
  exact ⟨_, free', by rw [hok], h.of_sameSetup hsetup hacc, hsetup, hsame, rfl⟩

/-- Resetting drops every hash, or changes nothing. -/
theorem resetPrefixCache_spec (h : m.InOrder free) :
    m.resetPrefixCache.2.InOrder free ∧ SameSetup m m.resetPrefixCache.2 ∧
      m.resetPrefixCache.2.singleTypeManagers = m.singleTypeManagers ∧
      (m.resetPrefixCache.2 = m ∨
        ∀ c, (m.resetPrefixCache.2.blockPool.blocks c).blockHash = none) := by
  obtain ⟨hwf, hframe, hsame, hdone⟩ := h.books.wf.resetPrefixCache
  unfold resetPrefixCache
  rcases hdone with ⟨hfalse, -⟩ | ⟨htrue, hnone⟩
  · simp only [hfalse, Bool.false_eq_true, if_false]
    exact ⟨h, SameSetup.refl _, trivial, Or.inl trivial⟩
  · simp only [htrue, if_true]
    have hsetup : SameSetup m { m with
        blockPool := m.blockPool.resetPrefixCache.2, prefixCacheStats := ⟨0, 0⟩ } :=
      ⟨rfl, rfl, rfl, rfl, rfl, hframe⟩
    exact ⟨h.of_sameSetup hsetup (h.books.of_same hwf hframe hsame), hsetup, trivial,
      Or.inr hnone⟩

end InOrder

/-! ### A fresh manager -/

def initialFree (kvCacheConfig : KVCacheConfig) : List BlockId :=
  if kvCacheConfig.kvCacheGroups.any (·.isSkipping) then
    List.range' 1 (kvCacheConfig.numBlocks - 1)
  else
    List.range kvCacheConfig.numBlocks

theorem init_inOrder {kvCacheConfig : KVCacheConfig} {maxModelLen : ℕ}
    {enableCaching enableKvCacheEvents : Bool} {hashFn : HashInput H → H} {seed : ℕ}
    {m : KVCacheManager H}
    (hok : init kvCacheConfig maxModelLen enableCaching enableKvCacheEvents hashFn seed = .ok m) :
    m.InOrder (initialFree kvCacheConfig) ∧ m.kvCacheConfig = kvCacheConfig ∧
      m.maxModelLen = maxModelLen ∧ m.enableCaching = enableCaching ∧
      (∀ manager ∈ m.singleTypeManagers, ∀ r, manager.getBlocks r = []) ∧
      ∀ c, (m.blockPool.blocks c).blockHash = none := by
  unfold init at hok
  split at hok
  · cases hok
  rename_i hne
  split at hok
  · cases hok
  rename_i pool hpool
  simp only [Except.ok.injEq] at hok
  subst hok
  obtain ⟨hwf, hnum, hcaching, hnull, hblocks⟩ := BlockPool.init_wellFormed hpool
  have hempty : ∀ manager ∈ kvCacheConfig.kvCacheGroups.mapIdx fun groupId spec =>
      (⟨spec, groupId, .empty⟩ : SingleTypeKVCacheManager),
      manager.reqToBlocks = .empty := by
    intro manager hm
    obtain ⟨i, hi, rfl⟩ := List.mem_mapIdx.mp hm
    rfl
  have hheld : heldBlocks (kvCacheConfig.kvCacheGroups.mapIdx fun groupId spec =>
      (⟨spec, groupId, .empty⟩ : SingleTypeKVCacheManager)) = 0 := by
    rw [Multiset.eq_zero_iff_forall_notMem]
    intro b hb
    obtain ⟨manager, hm, hb⟩ := mem_heldBlocks.mp hb
    rw [SingleTypeKVCacheManager.held, hempty manager hm] at hb
    simp [Dict.total, Dict.empty] at hb
  refine ⟨⟨⟨?_, hne, ?_, hcaching⟩, ?_⟩, rfl, rfl, rfl, ?_, fun c => (hblocks c).1⟩
  · refine List.ext_getElem? fun i => ?_
    simp [groups, List.getElem?_mapIdx, Function.comp_def]
  · intro hskip
    rw [hnull]
    exact hskip
  · rw [hheld]
    exact ⟨hwf, fun b hb => (hblocks b).2 hb, fun b hb => absurd hb (Multiset.notMem_zero b)⟩
  · intro manager hm r
    simp [SingleTypeKVCacheManager.getBlocks, hempty manager hm]

end KVCacheManager

end Pvllm
