import Pvllm.Core.Sharing
import Pvllm.Library.Recency

/-!
A cached block keeps its parents.

The blocks of a full-attention table are published from the front and given back from the
back, so the queue spends a child ahead of its parent. `Layered` is the invariant: in every
table what stands before a published block is published, and no free block outlives all the
blocks its parent is in. Both survive every call on the manager, and together they say that
the cache holds the parent of every hash it holds.
-/

namespace Pvllm

variable {H : Type} [DecidableEq H]

/-- A list of hashes in which every hash that has a parent follows it. -/
structure Descends (parent : H → H → Prop) (hashes : List H) : Prop where
  nodup : hashes.Nodup
  follows : ∀ {p k : H} {i : ℕ}, parent p k → hashes[i]? = some k →
    ∃ j, i = j + 1 ∧ hashes[j]? = some p

/-- In a table, what stands before a published block is published. -/
def Stacked (pool : BlockPool H) (manager : SingleTypeKVCacheManager) : Prop :=
  ∀ (r : RequestId) (i : ℕ) (b c : BlockId), (manager.getBlocks r)[i]? = some b →
    (manager.getBlocks r)[i + 1]? = some c → (pool.blocks c).blockHash ≠ none →
      (pool.blocks b).blockHash ≠ none

/-- Some block of the parent of a free block is not spent before it. -/
def ChildrenFirst (parent : H → H → Prop) (pool : BlockPool H) (free : List BlockId) : Prop :=
  ∀ c ∈ free, ∀ key, (pool.blocks c).blockHash = some key → ∀ p, parent p key.1 →
    ∃ b, (pool.blocks b).blockHash = some (p, key.2) ∧ Outlasts free b c

section Tables

open SingleTypeKVCacheManager

variable {hashes : RequestId → List H} {parent : H → H → Prop} {pool pool' mid : BlockPool H}
  {free : List BlockId} {managers : List SingleTypeKVCacheManager}
  {manager : SingleTypeKVCacheManager}

omit [DecidableEq H] in
theorem Marked.parent_held (h : Marked hashes pool managers) (hm : manager ∈ managers)
    (hstacked : Stacked pool manager) {r : RequestId} (hdescends : Descends parent (hashes r))
    {i : ℕ} {c : BlockId} (hc : (manager.getBlocks r)[i]? = some c)
    {key : BlockHashWithGroupId H} (hkey : (pool.blocks c).blockHash = some key) {p : H}
    (hp : parent p key.1) :
    ∃ j b, i = j + 1 ∧ (manager.getBlocks r)[j]? = some b ∧
      (pool.blocks b).blockHash = some (p, key.2) := by
  obtain ⟨hgroup, hhash⟩ := h.placed manager hm r i c hc key hkey
  obtain ⟨j, rfl, hbefore⟩ := hdescends.follows hp hhash
  have hlt := (List.getElem?_eq_some_iff.mp hc).1
  have hb : (manager.getBlocks r)[j]? = some (manager.getBlocks r)[j] :=
    List.getElem?_eq_getElem (Nat.lt_of_succ_lt hlt)
  have hne : (pool.blocks c).blockHash ≠ none := by
    rw [hkey]
    exact Option.some_ne_none _
  obtain ⟨key', hkey'⟩ := Option.ne_none_iff_exists'.mp (hstacked r j _ c hb hc hne)
  obtain ⟨hgroup', hhash'⟩ := h.placed manager hm r j _ hb key' hkey'
  refine ⟨j, _, rfl, hb, ?_⟩
  rw [hkey', hgroup, ← hgroup', Option.some.inj (hbefore.symm.trans hhash')]

theorem Marked.table_nodup (h : Marked hashes pool managers)
    (hbooks : Accounts pool free (heldBlocks managers))
    (hgroups : (managers.map (·.kvCacheGroupId)).Nodup) (hm : manager ∈ managers)
    (hfull : manager.kvCacheSpec.isFullAttention = true) {r : RequestId}
    (hnodup : (hashes r).Nodup) : (manager.getBlocks r).Nodup := by
  rw [List.nodup_iff_injective_getElem]
  rintro ⟨i, hi⟩ ⟨i', hi'⟩ heq
  rw [Fin.mk.injEq]
  have hb := List.getElem?_eq_getElem hi
  have hb' := List.getElem?_eq_getElem hi'
  dsimp only at heq
  rw [← heq] at hb'
  have hnn := h.filled manager hm hfull r _ (List.getElem_mem hi)
  obtain ⟨-, ⟨-, hii⟩ | ⟨key, hkey, hkey'⟩⟩ := h.aligned hbooks hgroups hm hm hnn hb hb'
  · exact hii
  · obtain ⟨hlt, hget⟩ := List.getElem?_eq_some_iff.mp hkey
    obtain ⟨hlt', hget'⟩ := List.getElem?_eq_some_iff.mp hkey'
    exact (hnodup.getElem_inj_iff).mp (hget.trans hget'.symm)

/-- Publishing goes from the front of a table. -/
theorem Stacked.published {request : Request H} {numFullBlocks : ℕ}
    (hstacked : Stacked mid manager) (hmarked : Marked hashes mid managers)
    (hbooks : Accounts mid free (heldBlocks managers)) (hm : manager ∈ managers)
    (hfull : manager.kvCacheSpec.isFullAttention = true)
    (hpublished : Published managers request numFullBlocks mid pool') : Stacked pool' manager := by
  intro r i b c hb hc hne
  have hnn : ∀ b i, (manager.getBlocks r)[i]? = some b → (mid.blocks b).isNull = false :=
    fun b i hb => hmarked.filled manager hm hfull r b (List.mem_of_getElem? hb)
  by_cases hnone : (mid.blocks c).blockHash = none
  · obtain ⟨key, hkey⟩ := Option.ne_none_iff_exists'.mp hne
    obtain ⟨manager', hm', j, hj, hc', hhash, -⟩ := hpublished.sound c key hkey hnone
    -- the block has one reference, so it is published in this table and at this place
    have hone : (mid.blocks c).refCnt < 2 := by
      by_contra htwo
      exact hmarked.shared c (hnn c _ hc) (by omega) hnone
    have hrefs := hbooks.refCnt_eq c (hnn c _ hc)
    obtain rfl := group_unique hm hm' (mem_held (List.mem_of_getElem? hc))
      (mem_held (List.mem_of_getElem? hc')) (by omega)
    have hle := count_held_le hm c
    obtain ⟨rfl, rfl⟩ := place_unique hc hc' (by omega)
    have hlt := (List.getElem?_eq_some_iff.mp hhash).1
    exact hpublished.complete manager hm i (by omega) (by omega) b hb (hnn b _ hb)
  · have hbefore := hstacked r i b c hb hc hnone
    rwa [hpublished.keeps b hbefore]

/-- Publishing is about blocks in use. -/
theorem ChildrenFirst.published {request : Request H} {numFullBlocks : ℕ}
    (hchildren : ChildrenFirst parent mid free)
    (hbooks : Accounts mid free (heldBlocks managers))
    (hpublished : Published managers request numFullBlocks mid pool') :
    ChildrenFirst parent pool' free := by
  intro c hc key hkey p hp
  have hsame : (mid.blocks c).blockHash ≠ none := by
    intro hnone
    obtain ⟨manager, hm, i, -, hget, -⟩ := hpublished.sound c key hkey hnone
    have hheld : c ∈ heldBlocks managers :=
      mem_heldBlocks.mpr ⟨manager, hm, mem_held (List.mem_of_getElem? hget)⟩
    have hzero := ((hbooks.wf.mem_free c).mp hc).2
    rw [hbooks.refCnt_eq c (hbooks.wf.not_null_of_mem hc)] at hzero
    exact Multiset.count_eq_zero.mp hzero hheld
  rw [hpublished.keeps c hsame] at hkey
  obtain ⟨b, hb, hlasts⟩ := hchildren c hc key hkey p hp
  refine ⟨b, ?_, hlasts⟩
  rw [hpublished.keeps b (by rw [hb]; exact Option.some_ne_none _), hb]

end Tables

namespace KVCacheManager

variable {m m' : KVCacheManager H} {free free' : List BlockId} {request : Request H}
  {hashes : RequestId → List H} {parent : H → H → Prop}

/-- One full-attention group, whose blocks stand under their hashes, with parents before
their children in the tables and behind them in the queue. -/
structure Layered (parent : H → H → Prop) (hashes : RequestId → List H) (m : KVCacheManager H)
    (free : List BlockId) : Prop where
  order : m.InOrder free
  marks : m.Marks hashes
  single : ∃ group, m.singleTypeManagers = [group] ∧ group.kvCacheSpec.isFullAttention = true
  stacked : ∀ manager ∈ m.singleTypeManagers, Stacked m.blockPool manager
  children : ChildrenFirst parent m.blockPool free

namespace Layered

omit [DecidableEq H] in
theorem full_of_single
    (h : ∃ group, m.singleTypeManagers = [group] ∧ group.kvCacheSpec.isFullAttention = true) :
    ∀ manager ∈ m.singleTypeManagers, manager.kvCacheSpec.isFullAttention = true := by
  obtain ⟨group, hgroups, hfull⟩ := h
  intro manager hm
  rw [hgroups] at hm
  rwa [List.mem_singleton.mp hm]

/-- The cache holds the parent of what it holds. -/
theorem parent_cached (h : Layered parent hashes m free)
    (hdescends : ∀ r, Descends parent (hashes r)) {c : BlockId} {key : BlockHashWithGroupId H}
    (hkey : (m.blockPool.blocks c).blockHash = some key) {p : H} (hp : parent p key.1) :
    ∃ b, (m.blockPool.blocks b).blockHash = some (p, key.2) := by
  by_cases hc : c ∈ free
  · obtain ⟨b, hb, -⟩ := h.children c hc key hkey p hp
    exact ⟨b, hb⟩
  -- a published block that is not free is in a table, behind its parent
  have hnn := h.order.books.wf.not_null_of_hashed hkey
  have hlt := h.order.books.wf.hashed_lt c (by rw [hkey]; exact Option.some_ne_none _)
  have hheld : c ∈ heldBlocks m.singleTypeManagers := by
    rw [← Multiset.one_le_count_iff_mem, ← h.order.books.refCnt_eq c hnn]
    exact Nat.pos_of_ne_zero fun hzero => hc ((h.order.books.wf.mem_free c).mpr ⟨hlt, hzero⟩)
  obtain ⟨manager, hm, hheld⟩ := mem_heldBlocks.mp hheld
  obtain ⟨r, hmem⟩ := SingleTypeKVCacheManager.exists_of_mem_held hheld
  obtain ⟨i, hi⟩ := List.getElem?_of_mem hmem
  obtain ⟨-, b, -, -, hb⟩ := h.marks.parent_held hm (h.stacked manager hm) (hdescends r) hi hkey hp
  exact ⟨b, hb⟩

end Layered

/-! ### Allocation -/

/-- What is in a table is not handed out again. -/
theorem Allocates.held_not_new {per news : List (List BlockId)} {numTokens : ℕ}
    {published : Option ℕ} {adopted : List SingleTypeKVCacheManager} {mid : BlockPool H}
    (halloc : Allocates m m' free free' request per news numTokens published adopted mid)
    (h : m.InOrder free) {manager : SingleTypeKVCacheManager} (hm : manager ∈ m.singleTypeManagers)
    {r : RequestId} {b : BlockId} (hb : b ∈ manager.getBlocks r) : b ∉ news.flatten := by
  intro hnew
  rw [halloc.news_flatten] at hnew
  have hfree : b ∈ free := List.diff_subset _ _ (List.mem_of_mem_take hnew)
  have hzero := ((h.books.wf.mem_free b).mp hfree).2
  rw [h.books.refCnt_eq b (h.books.wf.not_null_of_mem hfree)] at hzero
  exact Multiset.count_eq_zero.mp hzero
    (mem_heldBlocks.mpr ⟨manager, hm, SingleTypeKVCacheManager.mem_held hb⟩)

theorem Allocates.cached_not_new {per news : List (List BlockId)} {numTokens : ℕ}
    {published : Option ℕ} {adopted : List SingleTypeKVCacheManager} {mid : BlockPool H}
    (halloc : Allocates m m' free free' request per news numTokens published adopted mid)
    (h : m.InOrder free) {b : BlockId} (hb : b ∈ m.cachedBlocks per) : b ∉ news.flatten := by
  intro hnew
  rw [halloc.news_flatten] at hnew
  exact ((h.books.wf.queue.nodup.mem_sdiff_iff).mp (List.mem_of_mem_take hnew)).2 hb

theorem Allocates.mid_hash {per news : List (List BlockId)} {numTokens : ℕ}
    {published : Option ℕ} {adopted : List SingleTypeKVCacheManager} {mid : BlockPool H}
    (halloc : Allocates m m' free free' request per news numTokens published adopted mid)
    {c : BlockId} {key : BlockHashWithGroupId H} :
    (mid.blocks c).blockHash = some key ↔
      c ∉ news.flatten ∧ (m.blockPool.blocks c).blockHash = some key := by
  rw [halloc.mid_blocks]
  split
  · rename_i hnew
    simp [hnew]
  · rename_i hold
    simp [hold]

theorem Layered.adopts_stacked {per news : List (List BlockId)} {numTokens : ℕ}
    {published : Option ℕ} {adopted : List SingleTypeKVCacheManager} {mid : BlockPool H}
    (h : Layered parent hashes m free) (hhits : m.Hits request per) (hfilled : m.Filled per)
    (halloc : Allocates m m' free free' request per news numTokens published adopted mid) :
    ∀ manager ∈ m'.singleTypeManagers, Stacked mid manager := by
  have hfull := Layered.full_of_single h.single
  have hper : List.Forall₂ (fun _ blocks => ∀ b ∈ blocks, b ∈ m.cachedBlocks per)
      m.singleTypeManagers per := by
    obtain ⟨hlength, hget⟩ := List.forall₂_iff_get.mp hfilled
    refine List.forall₂_iff_get.mpr ⟨hlength, fun j hj hj' b hb => List.mem_filter.mpr ⟨?_, ?_⟩⟩
    · exact List.mem_flatten.mpr ⟨_, List.getElem_mem hj', hb⟩
    · have hnn := hget j hj hj' (hfull _ (List.getElem_mem hj)) b hb
      simp [hnn]
  have hkeep : ∀ b, b ∉ news.flatten → (m.blockPool.blocks b).blockHash ≠ none →
      (mid.blocks b).blockHash ≠ none := by
    intro b hold hne
    obtain ⟨key, hkey⟩ := Option.ne_none_iff_exists'.mp hne
    rw [halloc.mid_hash.mpr ⟨hold, hkey⟩]
    exact Option.some_ne_none _
  intro manager' hm' r i b c hb hc hne
  obtain ⟨key, hkey⟩ := Option.ne_none_iff_exists'.mp hne
  obtain ⟨hold, hkey⟩ := halloc.mid_hash.mp hkey
  obtain ⟨manager, hm, -, -, hothers, first, new, htable, hnew, hfirst⟩ :=
    halloc.entry hper hm'
  have hbefore : ∀ r', (manager.getBlocks r')[i]? = some b →
      (manager.getBlocks r')[i + 1]? = some c → (mid.blocks b).blockHash ≠ none := by
    intro r' hb hc
    refine hkeep b (halloc.held_not_new h.order hm (List.mem_of_getElem? hb)) ?_
    refine h.stacked manager hm r' i b c hb hc ?_
    rw [hkey]
    exact Option.some_ne_none _
  by_cases hr : r = request.requestId
  · subst hr
    rw [htable] at hb hc
    have hlt : i + 1 < first.length := by
      by_contra hge
      rw [List.getElem?_append_right (by omega)] at hc
      exact hold (hnew c (List.mem_of_getElem? hc))
    rw [List.getElem?_append_left hlt] at hc
    rw [List.getElem?_append_left (by omega)] at hb
    rcases hfirst with rfl | hcached
    · exact hbefore _ hb hc
    · have hmem := hcached b (List.mem_of_getElem? hb)
      exact hkeep b (halloc.cached_not_new h.order hmem) (hhits.hashed h.order b hmem)
  · rw [hothers r hr] at hb hc
    exact hbefore r hb hc

/-- What has left the queue has left it behind its children. -/
theorem Layered.adopts_children {per news : List (List BlockId)} {numTokens : ℕ}
    {published : Option ℕ} {adopted : List SingleTypeKVCacheManager} {mid : BlockPool H}
    (h : Layered parent hashes m free)
    (halloc : Allocates m m' free free' request per news numTokens published adopted mid) :
    ChildrenFirst parent mid free' := by
  intro c hc key hkey p hp
  obtain ⟨hold, hkey⟩ := halloc.mid_hash.mp hkey
  have hnodup := h.order.books.wf.queue.nodup
  have hdiff : (free.diff (m.cachedBlocks per)).Nodup := hnodup.diff
  rw [halloc.free_eq] at hc
  have hrest := List.mem_of_mem_drop hc
  obtain ⟨hfree, htaken⟩ := hnodup.mem_sdiff_iff.mp hrest
  obtain ⟨b, hb, hlasts⟩ := h.children c hfree key hkey p hp
  have hlasts' : Outlasts (free.diff (m.cachedBlocks per)) b c := by
    rw [hnodup.sdiff_eq_filter]
    exact hlasts.filter (by simpa using htaken)
  refine ⟨b, halloc.mid_hash.mpr ⟨?_, hb⟩, ?_⟩
  · rw [halloc.news_flatten]
    exact hlasts'.not_mem_take hdiff hc
  · rw [halloc.free_eq]
    exact hlasts'.drop hdiff hc

/-- Slots that are given keep the layers. -/
theorem Layered.allocates {per news : List (List BlockId)} {numTokens : ℕ}
    {published : Option ℕ} {adopted : List SingleTypeKVCacheManager} {mid : BlockPool H}
    (h : Layered parent hashes m free) (hsame : hashes request.requestId = request.blockHashes)
    (hhits : m.Hits request per) (hfilled : m.Filled per)
    (halloc : Allocates m m' free free' request per news numTokens published adopted mid) :
    Layered parent hashes m' free' := by
  have hmarks := h.marks.allocates h.order hsame hhits hfilled halloc
  have hmid := h.marks.adopts h.order hsame hhits hfilled halloc
  have hstacked := h.adopts_stacked hhits hfilled halloc
  have hchildren := h.adopts_children halloc
  have hsingle : ∃ group, m'.singleTypeManagers = [group] ∧
      group.kvCacheSpec.isFullAttention = true := by
    obtain ⟨group, hgroups, hfull⟩ := h.single
    have hpairs := halloc.setup.groups
    unfold groups at hpairs
    rw [hgroups, List.map_singleton, List.map_eq_singleton_iff] at hpairs
    obtain ⟨group', hgroups', heq⟩ := hpairs
    exact ⟨group', hgroups', by rw [(Prod.mk.inj heq).2, hfull]⟩
  have hfull := Layered.full_of_single hsingle
  have hpool := halloc.pool_eq
  cases hpublished : published with
  | none =>
      rw [hpublished] at hpool
      refine ⟨halloc.order, hmarks, hsingle, ?_, ?_⟩
      · rw [hpool]
        exact hstacked
      · rw [hpool]
        exact hchildren
  | some numFullBlocks =>
      rw [hpublished] at hpool
      exact ⟨halloc.order, hmarks, hsingle, fun manager hm =>
        (hstacked manager hm).published hmid halloc.mid_books hm (hfull manager hm) hpool,
        hchildren.published halloc.mid_books hpool⟩

theorem Layered.allocateSlots {n k lookahead : ℕ} {hits : Option (List (List BlockId))}
    {delay : Bool} {result : Option (List (List BlockId))} (h : Layered parent hashes m free)
    (hsame : hashes request.requestId = request.blockHashes)
    (hhits : ∀ blocks, hits = some blocks → Hits m request blocks)
    (hfilled : ∀ blocks, hits = some blocks → m.Filled blocks)
    (hok : m.allocateSlots request n k hits lookahead delay = .ok (result, m')) :
    ∃ free', Layered parent hashes m' free' := by
  obtain ⟨hhits', hfilled'⟩ := perGroupCached_hits hhits hfilled
  rcases allocateSlots_ok h.order (cachedBlocks_lt h.order hhits) hok with
    ⟨-, rfl⟩ | ⟨news, free', adopted, mid, -, halloc⟩
  · exact ⟨free, h⟩
  · exact ⟨free', h.allocates hsame hhits' hfilled' halloc⟩

/-! ### Release and reset -/

/-- Releasing a request of the one group puts its table into the queue. -/
theorem Layered.free_requeues (h : Layered parent hashes m free) {r : RequestId}
    (hok : m.free r = .ok m') : ∃ group released, m.singleTypeManagers = [group] ∧
      m'.singleTypeManagers = [group.popBlocks r] ∧
      m'.InOrder (m.blockPool.requeue free released) ∧
      released.Sublist (group.getBlocks r).reverse ∧
      (∀ c, (m'.blockPool.blocks c).blockHash = (m.blockPool.blocks c).blockHash) ∧
      ∀ c ∈ released, c ∈ group.getBlocks r := by
  obtain ⟨group, hgroups, -⟩ := h.single
  obtain ⟨m₁, free', hok', -, hsetup, hblocks, hmanagers⟩ := free_spec h.order r
  rw [hok, Except.ok.injEq] at hok'
  subst hok'
  rw [hgroups, List.map_singleton] at hmanagers
  have hbooks := h.order.books
  rw [hgroups, heldBlocks_cons, heldBlocks_nil, add_zero, ← zero_add group.held] at hbooks
  obtain ⟨pool', released, hfree, hacc, -, -, hsub, -⟩ :=
    SingleTypeKVCacheManager.free_spec (r := r) hbooks
  have hpool : m'.blockPool = pool' := by
    unfold KVCacheManager.free at hok
    rw [hgroups, KVCacheCoordinator.free, hfree] at hok
    rw [← Except.ok.inj hok]
  refine ⟨group, released, hgroups, hmanagers, ?_, hsub, fun c => (hblocks c).2, fun c hc => ?_⟩
  · refine h.order.of_sameSetup hsetup ?_
    rw [hpool, hmanagers, heldBlocks_cons, heldBlocks_nil, add_zero]
    rwa [zero_add] at hacc
  · exact List.mem_reverse.mp (hsub.subset hc)

/-- Giving a table back, last block first, keeps the layers. -/
theorem Layered.of_free {r : RequestId} (h : Layered parent hashes m free)
    (hdescends : Descends parent (hashes r)) (hok : m.free r = .ok m') :
    ∃ free', Layered parent hashes m' free' := by
  obtain ⟨group, released, hgroups, hgroups', horder', hsub, hhash, hreleased⟩ :=
    h.free_requeues hok
  have hmem : group ∈ m.singleTypeManagers := by
    rw [hgroups]
    exact List.mem_singleton_self group
  have hfull := Layered.full_of_single h.single group hmem
  have hnodup := h.marks.table_nodup h.order.books h.order.groupIds_nodup hmem hfull
    hdescends.nodup
  refine ⟨_, horder', h.marks.of_free h.order hok, ⟨_, hgroups', hfull⟩, ?_, ?_⟩
  · intro manager hm r' i b c hb hc hne
    rw [hgroups'] at hm
    rw [List.mem_singleton.mp hm, SingleTypeKVCacheManager.getBlocks_popBlocks] at hb hc
    rw [hhash] at hne ⊢
    split at hb
    · cases hb
    · rename_i hr
      rw [if_neg hr] at hc
      exact h.stacked group hmem r' i b c hb hc hne
  · intro c hc key hkey p hp
    rw [hhash] at hkey
    -- a hashed block joins the queue at the back
    have hhashed : ∀ b key, (m.blockPool.blocks b).blockHash = some key →
        b ∉ released.filter m.blockPool.spentFirst := by
      intro b key hkey hb
      have hnone := (BlockPool.spentFirst_iff.mp (List.mem_filter.mp hb).2).1
      rw [hkey] at hnone
      cases hnone
    rcases BlockPool.mem_requeue.mp hc with hfree | hgiven
    · obtain ⟨b, hb, hlasts⟩ := h.children c hfree key hkey p hp
      refine ⟨b, (hhash b).trans hb, ?_⟩
      exact (hlasts.append_right hfree).append_left (hhashed b _ hb)
    · obtain ⟨i, hi⟩ := List.getElem?_of_mem (hreleased c hgiven)
      obtain ⟨j, b, rfl, hj, hb⟩ := h.marks.parent_held hmem (h.stacked group hmem) hdescends hi
        hkey hp
      refine ⟨b, (hhash b).trans hb, ?_⟩
      refine Outlasts.append_left ?_ (hhashed b _ hb)
      refine Outlasts.append_left ?_ fun hbfree => ?_
      · refine (outlasts_reverse hnodup hsub hj hi hgiven).filter ?_
        rw [Bool.not_eq_true', Bool.eq_false_iff]
        exact fun hspent => hhashed c key hkey (List.mem_filter.mpr ⟨hgiven, hspent⟩)
      · -- the parent was in the table too, so it was in use
        have hzero := ((h.order.books.wf.mem_free b).mp hbfree).2
        rw [h.order.books.refCnt_eq b (h.order.books.wf.not_null_of_mem hbfree)] at hzero
        exact Multiset.count_eq_zero.mp hzero (mem_heldBlocks.mpr ⟨group, hmem,
          SingleTypeKVCacheManager.mem_held (List.mem_of_getElem? hj)⟩)

omit [DecidableEq H] in
theorem Configured.specs (h : m.Configured) :
    m.singleTypeManagers.map (·.kvCacheSpec) = m.kvCacheConfig.kvCacheGroups :=
  calc m.singleTypeManagers.map (·.kvCacheSpec)
      = m.groups.map Prod.snd := by rw [KVCacheManager.groups, List.map_map]; rfl
    _ = (m.kvCacheConfig.kvCacheGroups.mapIdx fun i spec => (i, spec)).map Prod.snd := by
        rw [h.groups]
    _ = m.kvCacheConfig.kvCacheGroups := List.ext_getElem (by simp) (by simp)

/-- A full-attention group sheds nothing. -/
theorem Layered.removeSkippedBlocks (h : Layered parent hashes m free)
    (hok : m.removeSkippedBlocks request = .ok m') : m' = m := by
  have hnone : m.hasSkippingGroups = false := by
    obtain ⟨group, hgroups, hfull⟩ := h.single
    unfold hasSkippingGroups
    rw [← h.order.specs, hgroups, List.map_singleton, List.any_cons, List.any_nil, Bool.or_false,
      KVCacheSpec.isSkipping, hfull]
    rfl
  unfold KVCacheManager.removeSkippedBlocks at hok
  rw [if_pos hnone] at hok
  exact (Except.ok.inj hok).symm

/-- A lookup leaves the layers alone. -/
theorem Layered.getComputedBlocks {result : List (List BlockId) × ℕ}
    (h : Layered parent hashes m free) (hok : m.getComputedBlocks request = .ok (result, m')) :
    Layered parent hashes m' free := by
  obtain ⟨hsetup, hpool, hmanagers, -⟩ := getComputedBlocks_ok h.order hok
  refine ⟨h.order.of_sameSetup hsetup ?_, ?_, ?_, ?_, ?_⟩
  · rw [hpool, hmanagers]
    exact h.order.books
  · rw [Marks, hpool, hmanagers]
    exact h.marks
  · rw [hmanagers]
    exact h.single
  · rw [hpool, hmanagers]
    exact h.stacked
  · rw [hpool]
    exact h.children

/-- A reset drops every hash, or none. -/
theorem Layered.resetPrefixCache (h : Layered parent hashes m free) :
    Layered parent hashes m.resetPrefixCache.2 free := by
  have hmarks := Marks.resetPrefixCache h.marks h.order
  obtain ⟨horder, -, hmanagers, hsame | hnone⟩ := resetPrefixCache_spec h.order
  · rwa [hsame]
  refine ⟨horder, hmarks, hmanagers ▸ h.single, fun manager hm r i b c hb hc hne => ?_,
    fun c hc key hkey => ?_⟩
  · exact absurd (hnone c) hne
  · rw [hnone] at hkey
    cases hkey

end KVCacheManager

end Pvllm
