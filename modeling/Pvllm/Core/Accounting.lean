import Pvllm.Core.Allocation

/-!
Block ownership over whole sequences of calls.

`KVStep` is one call on the manager as the scheduler issues it: the hits an
allocation is given are those a lookup just returned, for a request that holds
nothing. Every state such a sequence reaches is in order, and so the reference
counts, the tables and the free queue tell the same story.
-/

namespace Pvllm

variable {H : Type} [DecidableEq H]

namespace KVCacheManager

/-- One call of the scheduler on the manager. The request is whatever the
scheduler holds under that id at the time. -/
inductive KVStep : KVCacheManager H → KVCacheManager H → Prop
  | getComputedBlocks {m m' : KVCacheManager H} {result : List (List BlockId) × ℕ}
      (request : Request H) (hok : m.getComputedBlocks request = .ok (result, m')) : KVStep m m'
  | allocateSlots {m m' : KVCacheManager H} {result : Option (List (List BlockId))}
      (request : Request H) (numNewTokens numNewComputedTokens numLookaheadTokens : ℕ)
      (delayCacheBlocks : Bool)
      (hok : m.allocateSlots request numNewTokens numNewComputedTokens none numLookaheadTokens
        delayCacheBlocks = .ok (result, m')) : KVStep m m'
  | adopt {m m₁ m' : KVCacheManager H} {hits : List (List BlockId)} {numComputedTokens : ℕ}
      {result : Option (List (List BlockId))} (request : Request H)
      (numNewTokens numNewComputedTokens numLookaheadTokens : ℕ) (delayCacheBlocks : Bool)
      (hempty : ∀ manager ∈ m.singleTypeManagers, manager.getBlocks request.requestId = [])
      (hhits : m.getComputedBlocks request = .ok ((hits, numComputedTokens), m₁))
      (hok : m₁.allocateSlots request numNewTokens numNewComputedTokens (some hits)
        numLookaheadTokens delayCacheBlocks = .ok (result, m')) : KVStep m m'
  | removeSkippedBlocks {m m' : KVCacheManager H} (request : Request H)
      (hok : m.removeSkippedBlocks request = .ok m') : KVStep m m'
  | free {m m' : KVCacheManager H} (requestId : RequestId)
      (hok : m.free requestId = .ok m') : KVStep m m'
  | resetPrefixCache {m : KVCacheManager H} : KVStep m m.resetPrefixCache.2

variable {m m' : KVCacheManager H} {free : List BlockId}

/-- What an allocation is given: nothing, or the hits of a lookup. -/
theorem cachedBlocks_lt (h : m.InOrder free) {request : Request H}
    {newComputedBlocks : Option (List (List BlockId))}
    (hhits : ∀ hits, newComputedBlocks = some hits → Hits m request hits) :
    ∀ b ∈ m.cachedBlocks (m.perGroupCached newComputedBlocks), b < m.blockPool.numGpuBlocks := by
  have hper : Hits m request (m.perGroupCached newComputedBlocks) := by
    unfold perGroupCached
    cases newComputedBlocks with
    | none => exact hits_emptyBlocks
    | some hits =>
        dsimp only
        split
        · exact hhits hits rfl
        · exact hits_emptyBlocks
  intro b hb
  obtain ⟨hb, hnn⟩ := List.mem_filter.mp hb
  exact hper.lt h hb (by simpa using hnn)

/-- Whatever `allocate_slots` answers, the manager stays in order. -/
theorem allocateSlots_inOrder (h : m.InOrder free) {request : Request H}
    {numNewTokens numNewComputedTokens : ℕ} {newComputedBlocks : Option (List (List BlockId))}
    {numLookaheadTokens : ℕ} {delayCacheBlocks : Bool} {result : Option (List (List BlockId))}
    (hhits : ∀ hits, newComputedBlocks = some hits → Hits m request hits)
    (hok : m.allocateSlots request numNewTokens numNewComputedTokens newComputedBlocks
      numLookaheadTokens delayCacheBlocks = .ok (result, m')) :
    ∃ free', m'.InOrder free' ∧ SameSetup m m' := by
  rcases allocateSlots_ok h (cachedBlocks_lt h hhits) hok with ⟨-, rfl⟩ |
    ⟨_, free', _, _, -, halloc⟩
  · exact ⟨free, h, SameSetup.refl _⟩
  · exact ⟨free', halloc.order, halloc.setup⟩

/-- Every call keeps the manager in order. -/
theorem KVStep.inOrder (hstep : KVStep m m') (h : m.InOrder free) :
    ∃ free', m'.InOrder free' ∧ SameSetup m m' := by
  cases hstep with
  | getComputedBlocks request hok =>
      obtain ⟨hsetup, hpool, hmanagers, -⟩ := getComputedBlocks_ok h hok
      exact ⟨free, h.of_sameSetup hsetup (by rw [hpool, hmanagers]; exact h.books), hsetup⟩
  | allocateSlots request n k lookahead delay hok =>
      exact allocateSlots_inOrder h (fun _ hnone => by cases hnone) hok
  | adopt request n k lookahead delay hempty hhits hok =>
      obtain ⟨hsetup, hpool, hmanagers, hcached⟩ := getComputedBlocks_ok h hhits
      have h₁ := h.of_sameSetup hsetup (by rw [hpool, hmanagers]; exact h.books)
      unfold Hits at hcached
      rw [← hpool, ← hmanagers] at hcached
      obtain ⟨free', h', hsetup'⟩ := allocateSlots_inOrder h₁
        (fun hits hsome => Option.some.inj hsome ▸ hcached) hok
      exact ⟨free', h', hsetup.trans hsetup'⟩
  | removeSkippedBlocks request hok =>
      obtain ⟨m₁, free', hok', h', hsetup, -⟩ := removeSkippedBlocks_spec h request
      rw [hok, Except.ok.injEq] at hok'
      subst hok'
      exact ⟨free', h', hsetup⟩
  | free r hok =>
      obtain ⟨m₁, free', hok', h', hsetup, -⟩ := free_spec h r
      rw [hok, Except.ok.injEq] at hok'
      subst hok'
      exact ⟨free', h', hsetup⟩
  | resetPrefixCache =>
      obtain ⟨h', hsetup, -⟩ := resetPrefixCache_spec h
      exact ⟨free, h', hsetup⟩

/-- Every sequence of calls keeps the manager in order. -/
theorem run_inOrder (hrun : Relation.ReflTransGen KVStep m m') (h : m.InOrder free) :
    ∃ free', m'.InOrder free' ∧ SameSetup m m' := by
  induction hrun with
  | refl => exact ⟨free, h, SameSetup.refl _⟩
  | tail _ hstep ih =>
      obtain ⟨free₁, h₁, hsetup₁⟩ := ih
      obtain ⟨free₂, h₂, hsetup₂⟩ := hstep.inOrder h₁
      exact ⟨free₂, h₂, hsetup₁.trans hsetup₂⟩

/-- The tables, the reference counts and the queue agree. `free` is what
walking the queue yields. -/
structure Accounted (m : KVCacheManager H) (free : List BlockId) : Prop where
  walk : ∀ fuel, free.length < fuel →
    m.blockPool.freeBlockQueue.getAllFreeBlocks fuel = some free
  numFreeBlocks : m.blockPool.getNumFreeBlocks = free.length
  refCnt : ∀ b, b < m.blockPool.numGpuBlocks → (m.blockPool.blocks b).isNull = false →
    (m.blockPool.blocks b).refCnt = occurrences m.singleTypeManagers b
  queued : ∀ b, b < m.blockPool.numGpuBlocks → (m.blockPool.blocks b).isNull = false →
    free.count b = if (m.blockPool.blocks b).refCnt = 0 then 1 else 0
  null : ∀ b, (m.blockPool.blocks b).isNull = true → b ∉ free

theorem InOrder.accounted (h : m.InOrder free) : m.Accounted free where
  walk _ hfuel := h.books.wf.queue.walk hfuel
  numFreeBlocks := h.books.wf.getNumFreeBlocks_eq
  refCnt b _ hnn := by rw [h.books.refCnt_eq b hnn, count_heldBlocks]
  queued b hlt hnn := by
    have hmem := h.books.wf.mem_free b
    split
    · rename_i hzero
      exact List.count_eq_one_of_mem h.books.wf.queue.nodup (hmem.mpr ⟨hlt, hzero⟩)
    · rename_i hpos
      exact List.count_eq_zero.mpr fun hb => hpos (hmem.mp hb).2
  null b hnull hb := by
    rw [h.books.wf.not_null_of_mem hb] at hnull
    cases hnull

/-- After every call of every sequence, a block is referenced once for each
table entry that names it, is queued exactly when it has no reference, and the
null block never is. -/
theorem run_accounted {kvCacheConfig : KVCacheConfig} {maxModelLen : ℕ}
    {enableCaching enableKvCacheEvents : Bool} {hashFn : HashInput H → H} {seed : ℕ}
    {m₀ m : KVCacheManager H}
    (hinit : init kvCacheConfig maxModelLen enableCaching enableKvCacheEvents hashFn seed = .ok m₀)
    (hrun : Relation.ReflTransGen KVStep m₀ m) : ∃ free, m.Accounted free := by
  obtain ⟨free, h, -⟩ := run_inOrder hrun (init_inOrder hinit).1
  exact ⟨free, h.accounted⟩

/-- A full-attention group and a window of three tokens over eight blocks. -/
def hybridConfig : KVCacheConfig where
  numBlocks := 8
  blockSize := 2
  kvCacheGroups := [⟨.fullAttention, 2, by decide, by simp⟩,
    ⟨.slidingWindow 3, 2, by decide, by simp⟩]
  uniform := by simp
  blockSize_pos := by decide

def hybridRun : Except PyError (KVCacheManager Digest) := do
  let m ← init hybridConfig 100 true false Digest.hash 0
  let request ← Request.init (.text 1 [1, 2, 3, 4, 5] 8)
  let (_, m) ← m.allocateSlots request 5 0 none 0 false
  m.free 1

/-- The accounting, on a run that allocates in two groups and releases. -/
theorem run_accounted_hybrid : ∃ m : KVCacheManager Digest, hybridRun = .ok m ∧
    ∃ free, m.Accounted free := by
  obtain ⟨m, hm, -⟩ := exists_of_okAnd (x := hybridRun) (p := fun _ => true) (by decide +kernel)
  refine ⟨m, hm, ?_⟩
  unfold hybridRun at hm
  obtain ⟨m₀, hinit, hm⟩ := except_bind_iff.mp hm
  obtain ⟨request, -, hm⟩ := except_bind_iff.mp hm
  obtain ⟨⟨_, m₁⟩, halloc, hfree⟩ := except_bind_iff.mp hm
  exact run_accounted hinit
    (.tail (.single (.allocateSlots request 5 0 0 false halloc)) (.free 1 hfree))

end KVCacheManager

end Pvllm
