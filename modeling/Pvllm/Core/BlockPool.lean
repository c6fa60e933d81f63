import Pvllm.Core.FreeQueue
import Pvllm.Library.Dict

/-!
The block pool: reference counts, the free queue and the hash index.

The first half is the code of `BlockPool`, method by method; the pool is
passed and returned where the source mutates it. The second half says what a
pool in order looks like (`WellFormed`) and what each operation does to one:
which blocks move in or out of the queue, where in the queue they go, and that
every other block is untouched. Nothing above this module unfolds a pool
operation.
-/

namespace Pvllm

open FreeKVCacheBlockQueue

/-- The key of the hash index: a block hash scoped to one group. -/
abbrev BlockHashWithGroupId (H : Type) := H × ℕ

/-- Block metadata. The link fields live in the free queue. -/
structure KVCacheBlock (H : Type) where
  refCnt : ℕ
  blockHash : Option (BlockHashWithGroupId H)
  isNull : Bool

namespace KVCacheBlock

variable {H : Type} (block : KVCacheBlock H) (key : BlockHashWithGroupId H) (n : ℕ)

def resetHash : KVCacheBlock H := { block with blockHash := none }

def setBlockHash : KVCacheBlock H := { block with blockHash := some key }

def withRefCnt : KVCacheBlock H := { block with refCnt := n }

@[simp] theorem resetHash_refCnt : block.resetHash.refCnt = block.refCnt := rfl
@[simp] theorem resetHash_blockHash : block.resetHash.blockHash = none := rfl
@[simp] theorem resetHash_isNull : block.resetHash.isNull = block.isNull := rfl
@[simp] theorem setBlockHash_refCnt : (block.setBlockHash key).refCnt = block.refCnt := rfl
@[simp] theorem setBlockHash_blockHash : (block.setBlockHash key).blockHash = some key := rfl
@[simp] theorem setBlockHash_isNull : (block.setBlockHash key).isNull = block.isNull := rfl
@[simp] theorem withRefCnt_refCnt : (block.withRefCnt n).refCnt = n := rfl
@[simp] theorem withRefCnt_blockHash : (block.withRefCnt n).blockHash = block.blockHash := rfl
@[simp] theorem withRefCnt_isNull : (block.withRefCnt n).isNull = block.isNull := rfl

@[simp] theorem withRefCnt_withRefCnt (m : ℕ) :
    (block.withRefCnt m).withRefCnt n = block.withRefCnt n := rfl

variable {block} in
theorem resetHash_of_none (h : block.blockHash = none) : block.resetHash = block := by
  cases block
  cases h
  rfl

end KVCacheBlock

structure BlockPool (H : Type) where
  numGpuBlocks : ℕ
  enableCaching : Bool
  blocks : BlockId → KVCacheBlock H
  nullBlock : Option BlockId
  freeBlockQueue : FreeKVCacheBlockQueue
  cachedBlockHashToBlock : Dict (BlockHashWithGroupId H) (List BlockId)
  numEvictedBlocks : ℕ

namespace BlockPool

variable {H : Type} [DecidableEq H]

/-! ### The operations -/

omit [DecidableEq H] in
/-- A fresh pool. Block 0 is pinned as the null block when one is reserved. -/
def init (numGpuBlocks : ℕ) (enableCaching enableKvCacheEvents reserveNullBlock : Bool) :
    Except PyError (BlockPool H) :=
  if numGpuBlocks = 0 then
    .error (.valueError (s!"num_gpu_blocks must be positive, got {numGpuBlocks}. "
      ++ "The memory model derives this; a non-positive value means the KV pool did not fit "
      ++ "(requirement R10.5)."))
  else if enableKvCacheEvents then
    .error (.notImplementedError ("KV cache event publishing (R12.5, --kv-events-config) is not "
      ++ "modelled by pretending-vllm: no block store/remove events are emitted, so enabling it "
      ++ "would report a stream that never arrives."))
  else if reserveNullBlock ∧ numGpuBlocks < 2 then
    .error (.valueError ("num_gpu_blocks must be at least 2 when a sliding-window group is "
      ++ s!"present, got {numGpuBlocks}: block 0 is reserved as the null block, leaving nothing "
      ++ "to allocate"))
  else
    .ok {
      numGpuBlocks := numGpuBlocks
      enableCaching := enableCaching
      blocks := fun b =>
        if reserveNullBlock ∧ b = 0 then ⟨1, none, true⟩ else ⟨0, none, false⟩
      nullBlock := if reserveNullBlock then some 0 else none
      freeBlockQueue := .init
        (if reserveNullBlock then List.range' 1 (numGpuBlocks - 1) else List.range numGpuBlocks)
      cachedBlockHashToBlock := .empty
      numEvictedBlocks := 0 }

omit [DecidableEq H] in
def modifyBlock (pool : BlockPool H) (b : BlockId) (f : KVCacheBlock H → KVCacheBlock H) :
    BlockPool H :=
  { pool with blocks := Function.update pool.blocks b (f (pool.blocks b)) }

omit [DecidableEq H] in
def getNumFreeBlocks (pool : BlockPool H) : ℕ := pool.freeBlockQueue.numFreeBlocks

omit [DecidableEq H] in
def numUsableBlocks (pool : BlockPool H) : ℕ :=
  pool.numGpuBlocks - (if pool.nullBlock.isSome then 1 else 0)

/-- Drop a block's cache entry as it is reallocated, and say whether it had one. -/
def maybeEvictCachedBlock (pool : BlockPool H) (b : BlockId) : Bool × BlockPool H :=
  match (pool.blocks b).blockHash with
  | none => (false, pool)
  | some key =>
    let cached := match pool.cachedBlockHashToBlock.find key with
      | none => pool.cachedBlockHashToBlock
      | some entries =>
        if entries.erase b = [] then pool.cachedBlockHashToBlock.delete key
        else pool.cachedBlockHashToBlock.store key (entries.erase b)
    (true, { pool.modifyBlock b (·.resetHash) with
      cachedBlockHashToBlock := cached
      numEvictedBlocks := pool.numEvictedBlocks + 1 })

/-- The loop of `get_new_blocks` over the blocks just popped. -/
def takePopped (pool : BlockPool H) : List BlockId → Except PyError (BlockPool H)
  | [] => .ok pool
  | b :: rest =>
    let pool := (pool.maybeEvictCachedBlock b).2
    if (pool.blocks b).refCnt ≠ 0 then
      .error (.assertionError (s!"block {b} came off the free queue with "
        ++ s!"ref_cnt={(pool.blocks b).refCnt}; the queue and the reference counts have diverged"))
    else
      takePopped (pool.modifyBlock b fun block => block.withRefCnt (block.refCnt + 1)) rest

/-- Pop blocks from the head of the free queue and take a reference. -/
def getNewBlocks (pool : BlockPool H) (numBlocks : ℕ) :
    Except PyError (List BlockId × BlockPool H) :=
  if pool.getNumFreeBlocks < numBlocks then
    .error (.valueError
      s!"cannot get {numBlocks} free blocks from the pool; {pool.getNumFreeBlocks} are free")
  else
    match pool.freeBlockQueue.popleftN numBlocks with
    | .error e => .error e
    | .ok (popped, queue) =>
      match ({ pool with freeBlockQueue := queue } : BlockPool H).takePopped popped with
      | .error e => .error e
      | .ok pool => .ok (popped, pool)

omit [DecidableEq H] in
/-- Take a reference to blocks hit by another request's prefix. -/
def touch (pool : BlockPool H) : List BlockId → Except PyError (BlockPool H)
  | [] => .ok pool
  | b :: rest =>
    let take (pool : BlockPool H) :=
      pool.modifyBlock b fun block => block.withRefCnt (block.refCnt + 1)
    if (pool.blocks b).refCnt = 0 ∧ (pool.blocks b).isNull = false then
      match pool.freeBlockQueue.remove b with
      | .error e => .error e
      | .ok queue => touch (take { pool with freeBlockQueue := queue }) rest
    else
      touch (take pool) rest

omit [DecidableEq H] in
/-- The loop of `free_blocks`: drop a reference to each block, and collect
those that reached zero, without a hash and with one. -/
def dropReferences (pool : BlockPool H) :
    List BlockId → Except PyError (List BlockId × List BlockId × BlockPool H)
  | [] => .ok ([], [], pool)
  | b :: rest =>
    if (pool.blocks b).refCnt = 0 then
      .error (.assertionError (s!"block {b} freed more times than it was allocated "
        ++ "(ref_cnt=-1); a request freed blocks it did not own"))
    else
      let pool := pool.modifyBlock b fun block => block.withRefCnt (block.refCnt - 1)
      match dropReferences pool rest with
      | .error e => .error e
      | .ok (withoutHash, withHash, pool') =>
        if (pool.blocks b).refCnt = 0 ∧ (pool.blocks b).isNull = false then
          if (pool.blocks b).blockHash = none ∧ pool.enableCaching then
            .ok (b :: withoutHash, withHash, pool')
          else
            .ok (withoutHash, b :: withHash, pool')
        else
          .ok (withoutHash, withHash, pool')

omit [DecidableEq H] in
/-- Drop a reference to each block, in eviction priority order, returning any
that hit zero to the queue: to the front without a hash, to the back with one. -/
def freeBlocks (pool : BlockPool H) (orderedBlocks : List BlockId) :
    Except PyError (BlockPool H) :=
  let orderedBlocks := orderedBlocks.filter fun b => !(pool.blocks b).isNull
  match pool.dropReferences orderedBlocks with
  | .error e => .error e
  | .ok (withoutHash, withHash, pool) =>
    match pool.freeBlockQueue.prependN withoutHash with
    | .error e => .error e
    | .ok queue =>
      match queue.appendN withHash with
      | .error e => .error e
      | .ok queue => .ok { pool with freeBlockQueue := queue }

def getCachedBlock (pool : BlockPool H) (blockHash : H) (groupId : ℕ) : Option BlockId :=
  match pool.cachedBlockHashToBlock.find (blockHash, groupId) with
  | none => none
  | some entries => entries.head?

/-- The body of the loop of `cache_full_blocks`: publish one block, unless it
already has a hash or is the null block. -/
def cacheFullBlock (groupId : ℕ) (pool : BlockPool H) (entry : H × BlockId) : BlockPool H :=
  if (pool.blocks entry.2).blockHash ≠ none then
    pool
  else if (pool.blocks entry.2).isNull then
    pool
  else
    let key := (entry.1, groupId)
    let entries := pool.cachedBlockHashToBlock.findD key []
    { pool.modifyBlock entry.2 (·.setBlockHash key) with
      cachedBlockHashToBlock := pool.cachedBlockHashToBlock.store key
        (if entry.2 ∈ entries then entries else entries ++ [entry.2]) }

/-- Register blocks that just became full: the indices from `numCachedBlocks`
up to `numFullBlocks`, stopping where the hashes or the blocks end. -/
def cacheFullBlocks (pool : BlockPool H) (requestBlockHashes : List H) (blocks : List BlockId)
    (numCachedBlocks numFullBlocks groupId : ℕ) : BlockPool H :=
  (((requestBlockHashes.zip blocks).take numFullBlocks).drop numCachedBlocks).foldl
    (cacheFullBlock groupId) pool

/-- Drop every cached block, unless one is still referenced. -/
def resetPrefixCache (pool : BlockPool H) : Bool × BlockPool H :=
  if 0 < pool.numUsableBlocks - pool.getNumFreeBlocks then
    (false, pool)
  else
    let evicted := (List.range pool.numGpuBlocks).foldl
      (fun pool b => (pool.maybeEvictCachedBlock b).2) pool
    (true, { evicted with cachedBlockHashToBlock := .empty, numEvictedBlocks := 0 })

/-! ### Reading a changed pool -/

section Reading

omit [DecidableEq H]

variable (pool : BlockPool H) (b c : BlockId) (f : KVCacheBlock H → KVCacheBlock H)

theorem modifyBlock_blocks :
    (pool.modifyBlock b f).blocks c = if c = b then f (pool.blocks c) else pool.blocks c := by
  by_cases h : c = b
  · subst h
    simp [modifyBlock]
  · simp [modifyBlock, h]

@[simp] theorem modifyBlock_queue : (pool.modifyBlock b f).freeBlockQueue = pool.freeBlockQueue :=
  rfl

@[simp] theorem modifyBlock_cached :
    (pool.modifyBlock b f).cachedBlockHashToBlock = pool.cachedBlockHashToBlock := rfl

@[simp] theorem modifyBlock_numGpuBlocks :
    (pool.modifyBlock b f).numGpuBlocks = pool.numGpuBlocks := rfl

@[simp] theorem modifyBlock_nullBlock : (pool.modifyBlock b f).nullBlock = pool.nullBlock := rfl

@[simp] theorem modifyBlock_enableCaching :
    (pool.modifyBlock b f).enableCaching = pool.enableCaching := rfl

end Reading

/-- Two pools over the same blocks, with the same switches. -/
structure SameFrame (pool pool' : BlockPool H) : Prop where
  numGpuBlocks : pool'.numGpuBlocks = pool.numGpuBlocks
  enableCaching : pool'.enableCaching = pool.enableCaching
  nullBlock : pool'.nullBlock = pool.nullBlock

omit [DecidableEq H] in
theorem SameFrame.refl (pool : BlockPool H) : SameFrame pool pool := ⟨rfl, rfl, rfl⟩

omit [DecidableEq H] in
theorem SameFrame.trans {p₁ p₂ p₃ : BlockPool H} (h : SameFrame p₁ p₂) (h' : SameFrame p₂ p₃) :
    SameFrame p₁ p₃ :=
  ⟨h'.1.trans h.1, h'.2.trans h.2, h'.3.trans h.3⟩

theorem maybeEvict_blocks (pool : BlockPool H) (b c : BlockId) :
    (pool.maybeEvictCachedBlock b).2.blocks c =
      if c = b then (pool.blocks c).resetHash else pool.blocks c := by
  unfold maybeEvictCachedBlock
  cases hb : (pool.blocks b).blockHash with
  | none =>
      by_cases h : c = b
      · subst h
        simp [KVCacheBlock.resetHash_of_none hb]
      · simp [h]
  | some key => exact modifyBlock_blocks ..

theorem maybeEvict_frame (pool : BlockPool H) (b : BlockId) :
    SameFrame pool (pool.maybeEvictCachedBlock b).2 := by
  unfold maybeEvictCachedBlock
  cases (pool.blocks b).blockHash <;> exact ⟨rfl, rfl, rfl⟩

theorem maybeEvict_queue (pool : BlockPool H) (b : BlockId) :
    (pool.maybeEvictCachedBlock b).2.freeBlockQueue = pool.freeBlockQueue := by
  unfold maybeEvictCachedBlock
  cases (pool.blocks b).blockHash <;> rfl

/-! ### A pool in order -/

/-- The index holds exactly the hashed blocks, each once under its hash, and
the null block is none of them. -/
structure Indexed (pool : BlockPool H) : Prop where
  indexed : ∀ key b, b ∈ pool.cachedBlockHashToBlock.findD key [] ↔
    (pool.blocks b).blockHash = some key
  entries : ∀ key l, pool.cachedBlockHashToBlock.find key = some l → l ≠ [] ∧ l.Nodup
  hashed_lt : ∀ b, (pool.blocks b).blockHash ≠ none → b < pool.numGpuBlocks
  isNull_iff : ∀ b, (pool.blocks b).isNull = true ↔ pool.nullBlock = some b
  null_lt : ∀ b, pool.nullBlock = some b → b < pool.numGpuBlocks
  null_unhashed : ∀ b, pool.nullBlock = some b → (pool.blocks b).blockHash = none

/-- The queue spells out `free`, the blocks without a reference, and the null
block is pinned above zero. -/
structure WellFormed (pool : BlockPool H) (free : List BlockId) : Prop extends Indexed pool where
  queue : Represents pool.freeBlockQueue free
  mem_free : ∀ b, b ∈ free ↔ b < pool.numGpuBlocks ∧ (pool.blocks b).refCnt = 0
  null_pinned : ∀ b, pool.nullBlock = some b → (pool.blocks b).refCnt ≠ 0

namespace WellFormed

variable {pool : BlockPool H} {free : List BlockId}

theorem getNumFreeBlocks_eq (h : WellFormed pool free) : pool.getNumFreeBlocks = free.length :=
  h.queue.count

theorem not_null_of_mem (h : WellFormed pool free) {b : BlockId} (hb : b ∈ free) :
    (pool.blocks b).isNull = false := by
  by_contra hn
  have hnull := (h.isNull_iff b).mp (by simpa using hn)
  exact h.null_pinned b hnull ((h.mem_free b).mp hb).2

end WellFormed

namespace Indexed

variable {pool : BlockPool H}

theorem not_null_of_hashed (h : Indexed pool) {b : BlockId}
    {key : BlockHashWithGroupId H} (hb : (pool.blocks b).blockHash = some key) :
    (pool.blocks b).isNull = false := by
  by_contra hn
  have hnull := (h.isNull_iff b).mp (by simpa using hn)
  rw [h.null_unhashed b hnull] at hb
  cases hb

/-- A lookup answers with a block that carries the hash asked for. -/
theorem getCachedBlock_hash (h : Indexed pool) {blockHash : H} {groupId : ℕ} {b : BlockId}
    (hb : pool.getCachedBlock blockHash groupId = some b) :
    (pool.blocks b).blockHash = some (blockHash, groupId) := by
  rw [← h.indexed]
  unfold getCachedBlock at hb
  unfold Dict.findD
  cases hfind : pool.cachedBlockHashToBlock.find (blockHash, groupId) with
  | none => simp [hfind] at hb
  | some l =>
      rw [hfind] at hb
      exact List.mem_of_head? hb

/-- A lookup misses only content no block carries. -/
theorem getCachedBlock_isSome (h : Indexed pool) {blockHash : H} {groupId : ℕ} {b : BlockId}
    (hb : (pool.blocks b).blockHash = some (blockHash, groupId)) :
    ∃ b', pool.getCachedBlock blockHash groupId = some b' := by
  rw [← h.indexed] at hb
  unfold Dict.findD at hb
  unfold getCachedBlock
  cases hfind : pool.cachedBlockHashToBlock.find (blockHash, groupId) with
  | none => simp [hfind] at hb
  | some l =>
      cases l with
      | nil => exact absurd rfl (h.entries _ _ hfind).1
      | cons b' l => exact ⟨b', rfl⟩

/-- The index depends on the hashes and the null block only. -/
theorem congr {pool' : BlockPool H} (h : Indexed pool) (hframe : SameFrame pool pool')
    (hcached : pool'.cachedBlockHashToBlock = pool.cachedBlockHashToBlock)
    (hhash : ∀ b, (pool'.blocks b).blockHash = (pool.blocks b).blockHash)
    (hnull : ∀ b, (pool'.blocks b).isNull = (pool.blocks b).isNull) : Indexed pool' where
  indexed key b := by rw [hcached, hhash, h.indexed]
  entries key l := by rw [hcached]; exact h.entries key l
  hashed_lt b := by rw [hhash, hframe.numGpuBlocks]; exact h.hashed_lt b
  isNull_iff b := by rw [hnull, hframe.nullBlock]; exact h.isNull_iff b
  null_lt b := by rw [hframe.nullBlock, hframe.numGpuBlocks]; exact h.null_lt b
  null_unhashed b := by rw [hframe.nullBlock, hhash]; exact h.null_unhashed b

/-- Evicting keeps the index: the block leaves its entry, and an entry it
leaves empty is deleted. -/
theorem maybeEvict (h : Indexed pool) (b : BlockId) :
    Indexed (pool.maybeEvictCachedBlock b).2 := by
  cases hb : (pool.blocks b).blockHash with
  | none =>
      have hsame : (pool.maybeEvictCachedBlock b).2 = pool := by
        simp [maybeEvictCachedBlock, hb]
      rwa [hsame]
  | some key =>
      have hframe := maybeEvict_frame pool b
      have hblocks := maybeEvict_blocks pool b
      have hmem : b ∈ pool.cachedBlockHashToBlock.findD key [] := (h.indexed key b).mpr hb
      obtain ⟨l, hl⟩ : ∃ l, pool.cachedBlockHashToBlock.find key = some l := by
        cases hfind : pool.cachedBlockHashToBlock.find key with
        | none => simp [Dict.findD, hfind] at hmem
        | some l => exact ⟨l, rfl⟩
      obtain ⟨-, hnd⟩ := h.entries key l hl
      have hl' : pool.cachedBlockHashToBlock.findD key [] = l := by simp [Dict.findD, hl]
      -- the key goes with the last block under it
      have hcached : (pool.maybeEvictCachedBlock b).2.cachedBlockHashToBlock =
          if l.erase b = [] then pool.cachedBlockHashToBlock.delete key
          else pool.cachedBlockHashToBlock.store key (l.erase b) := by
        simp [maybeEvictCachedBlock, hb, hl]
      have hfindD : ∀ key', (pool.maybeEvictCachedBlock b).2.cachedBlockHashToBlock.findD key' [] =
          if key' = key then l.erase b else pool.cachedBlockHashToBlock.findD key' [] := by
        intro key'
        rw [hcached]
        split
        · rename_i hnil
          simp [hnil]
        · simp
      constructor
      · intro key' c
        rw [hfindD, hblocks]
        by_cases hc : c = b
        · subst hc
          by_cases hk : key' = key
          · simp [hk, hnd.not_mem_erase]
          · simp [hk, h.indexed, hb, Ne.symm hk]
        · by_cases hk : key' = key
          · subst hk
            rw [if_pos rfl, if_neg hc, List.mem_erase_of_ne hc, ← hl', h.indexed]
          · simp [hk, hc, h.indexed]
      · intro key' l' hfind
        rw [hcached] at hfind
        by_cases hk : key' = key
        · subst hk
          split at hfind
          · simp [Dict.find_delete] at hfind
          · rename_i hne
            simp only [Dict.find_store_self, Option.some.injEq] at hfind
            exact hfind ▸ ⟨hne, hnd.erase b⟩
        · refine h.entries key' l' ?_
          split at hfind
          · rwa [Dict.find_delete, if_neg hk] at hfind
          · rwa [Dict.find_store_of_ne _ _ hk] at hfind
      · intro c
        rw [hframe.numGpuBlocks, hblocks]
        split
        · simp
        · exact h.hashed_lt c
      · intro c
        rw [hframe.nullBlock, hblocks, ← h.isNull_iff]
        split <;> rfl
      · intro c
        rw [hframe.nullBlock, hframe.numGpuBlocks]
        exact h.null_lt c
      · intro c
        rw [hframe.nullBlock, hblocks]
        split
        · simp
        · exact h.null_unhashed c

end Indexed

/-! ### Taking new blocks -/

theorem takePopped_eq {pool : BlockPool H} (h : Indexed pool) {popped : List BlockId}
    (hnd : popped.Nodup) (hzero : ∀ b ∈ popped, (pool.blocks b).refCnt = 0) :
    ∃ pool', pool.takePopped popped = .ok pool' ∧ Indexed pool' ∧ SameFrame pool pool' ∧
      pool'.freeBlockQueue = pool.freeBlockQueue ∧
      ∀ c, pool'.blocks c =
        if c ∈ popped then ⟨1, none, (pool.blocks c).isNull⟩ else pool.blocks c := by
  induction popped generalizing pool with
  | nil => exact ⟨pool, rfl, h, SameFrame.refl _, rfl, by simp⟩
  | cons b rest ih =>
      rw [List.nodup_cons] at hnd
      set evicted := (pool.maybeEvictCachedBlock b).2 with hevicted
      have hblocks := maybeEvict_blocks pool b
      rw [← hevicted] at hblocks
      set taken := evicted.modifyBlock b fun block => block.withRefCnt (block.refCnt + 1)
        with htaken
      have hb : (evicted.blocks b).refCnt = 0 := by
        simp [hblocks, hzero b List.mem_cons_self]
      have htblocks : ∀ c, taken.blocks c =
          if c = b then ⟨1, none, (pool.blocks c).isNull⟩ else pool.blocks c := by
        intro c
        rw [htaken, modifyBlock_blocks]
        by_cases hc : c = b
        · subst hc
          simp [hblocks, hzero c List.mem_cons_self, KVCacheBlock.resetHash,
            KVCacheBlock.withRefCnt]
        · simp [hblocks, hc]
      have htidx : Indexed taken := by
        refine (h.maybeEvict b).congr ⟨rfl, rfl, rfl⟩ rfl ?_ ?_
        · intro c
          rw [htaken, modifyBlock_blocks]
          split <;> rfl
        · intro c
          rw [htaken, modifyBlock_blocks]
          split <;> rfl
      obtain ⟨pool', hok, hidx, hframe, hqueue, hfinal⟩ := ih htidx hnd.2 fun c hc => by
        have hcb : c ≠ b := fun e => hnd.1 (e ▸ hc)
        rw [htblocks, if_neg hcb]
        exact hzero c (List.mem_cons_of_mem _ hc)
      refine ⟨pool', ?_, hidx, ?_, ?_, ?_⟩
      · simp [takePopped, ← hevicted, hb, ← htaken, hok]
      · exact (maybeEvict_frame pool b).trans ⟨hframe.1, hframe.2, hframe.3⟩
      · rw [hqueue]
        exact maybeEvict_queue pool b
      · intro c
        rw [hfinal, htblocks]
        by_cases hc : c = b
        · subst hc
          simp [hnd.1]
        · simp [hc]

/-- What `get_new_blocks` does to a pool in order: the first blocks of the
queue come out unhashed with one reference. -/
theorem WellFormed.getNewBlocks {pool : BlockPool H} {free : List BlockId}
    (h : WellFormed pool free) {n : ℕ} (hn : n ≤ free.length) :
    ∃ pool', pool.getNewBlocks n = .ok (free.take n, pool') ∧
      WellFormed pool' (free.drop n) ∧ SameFrame pool pool' ∧
      ∀ c, pool'.blocks c = if c ∈ free.take n then ⟨1, none, false⟩ else pool.blocks c := by
  obtain ⟨queue, hpop, hqueue⟩ := popleftN_eq h.queue hn
  set popped : BlockPool H := { pool with freeBlockQueue := queue } with hpopped
  have hidx : Indexed popped := h.toIndexed.congr ⟨rfl, rfl, rfl⟩ rfl (fun _ => rfl) fun _ => rfl
  have hmem : ∀ b ∈ free.take n, b ∈ free := fun b hb => List.mem_of_mem_take hb
  have hsplit : free.take n ++ free.drop n = free := List.take_append_drop n free
  have hnd : (free.take n ++ free.drop n).Nodup := hsplit.symm ▸ h.queue.nodup
  obtain ⟨pool', hok, hidx', hframe, hqueue', hblocks⟩ :=
    takePopped_eq hidx (List.nodup_append.mp hnd).1 fun b hb =>
      ((h.mem_free b).mp (hmem b hb)).2
  have hblocks' : ∀ c, pool'.blocks c =
      if c ∈ free.take n then ⟨1, none, false⟩ else pool.blocks c := by
    intro c
    rw [hblocks]
    split
    · rename_i hc
      rw [hpopped, ← h.not_null_of_mem (hmem c hc)]
    · rfl
  refine ⟨pool', ?_, ⟨hidx', ?_, ?_, ?_⟩, ⟨hframe.1, hframe.2, hframe.3⟩, hblocks'⟩
  · have hle : ¬ pool.getNumFreeBlocks < n := by
      rw [h.getNumFreeBlocks_eq]
      omega
    simp [BlockPool.getNewBlocks, hle, hpop, ← hpopped, hok]
  · rw [hqueue']
    exact hqueue
  · intro b
    rw [hframe.numGpuBlocks, hblocks']
    by_cases hb : b ∈ free.take n
    · simpa [hb] using fun hb' => (List.nodup_append.mp hnd).2.2 b hb b hb' rfl
    · have hdrop : b ∈ free.drop n ↔ b ∈ free := by
        rw [← hsplit, List.mem_append, hsplit]
        simp [hb]
      rw [if_neg hb, hdrop, h.mem_free]
  · intro b hb
    rw [hframe.nullBlock] at hb
    rw [hblocks']
    split
    · simp
    · exact h.null_pinned b hb

/-! ### Touching -/

/-- What `touch` does to a pool in order: each block gains a reference for
each time it is named, and those that were free leave the queue. -/
theorem WellFormed.touch {pool : BlockPool H} {free blocks : List BlockId}
    (h : WellFormed pool free) (hlt : ∀ b ∈ blocks, b < pool.numGpuBlocks) :
    ∃ pool', pool.touch blocks = .ok pool' ∧ WellFormed pool' (free.diff blocks) ∧
      SameFrame pool pool' ∧
      ∀ c, pool'.blocks c =
        (pool.blocks c).withRefCnt ((pool.blocks c).refCnt + blocks.count c) := by
  induction blocks generalizing pool free with
  | nil => exact ⟨pool, rfl, h, SameFrame.refl _, fun _ => rfl⟩
  | cons b rest ih =>
      obtain ⟨queue, hstep, hqueue⟩ : ∃ queue, Represents queue (free.erase b) ∧
          pool.touch (b :: rest) =
            (({ pool with freeBlockQueue := queue } : BlockPool H).modifyBlock b
            fun block => block.withRefCnt (block.refCnt + 1)).touch rest := by
        by_cases hzero : (pool.blocks b).refCnt = 0
        · have hb : b ∈ free := (h.mem_free b).mpr ⟨hlt b List.mem_cons_self, hzero⟩
          obtain ⟨queue, hremove, hqueue⟩ := remove_eq h.queue hb
          exact ⟨queue, hqueue, by simp [BlockPool.touch, hzero, h.not_null_of_mem hb, hremove]⟩
        · have hb : b ∉ free := fun hb => hzero ((h.mem_free b).mp hb).2
          refine ⟨pool.freeBlockQueue, ?_, by simp [BlockPool.touch, hzero]⟩
          rw [List.erase_of_not_mem hb]
          exact h.queue
      set taken : BlockPool H := ({ pool with freeBlockQueue := queue } : BlockPool H).modifyBlock b
        fun block => block.withRefCnt (block.refCnt + 1) with htaken
      have hblocks : ∀ c, taken.blocks c =
          (pool.blocks c).withRefCnt ((pool.blocks c).refCnt + if c = b then 1 else 0) := by
        intro c
        rw [htaken, modifyBlock_blocks]
        split <;> rfl
      have hwf : WellFormed taken (free.erase b) := by
        refine ⟨h.toIndexed.congr ⟨rfl, rfl, rfl⟩ rfl ?_ ?_, hstep, ?_, ?_⟩
        · intro c
          simp [hblocks]
        · intro c
          simp [hblocks]
        · intro c
          rw [h.queue.nodup.mem_erase_iff, h.mem_free, hblocks]
          by_cases hc : c = b
          · simp [hc]
          · simp [hc, htaken]
        · intro c hc
          have hpin := h.null_pinned c hc
          rw [hblocks, KVCacheBlock.withRefCnt_refCnt]
          omega
      obtain ⟨pool', hok, hwf', hframe, hfinal⟩ := ih hwf fun c hc =>
        hlt c (List.mem_cons_of_mem _ hc)
      refine ⟨pool', hqueue.trans hok, by rwa [List.diff_cons], ⟨hframe.1, hframe.2, hframe.3⟩, ?_⟩
      intro c
      rw [hfinal, hblocks, List.count_cons, KVCacheBlock.withRefCnt_withRefCnt,
        KVCacheBlock.withRefCnt_refCnt]
      simp only [beq_iff_eq, eq_comm (a := b)]
      congr 1
      omega

/-! ### Freeing -/

omit [DecidableEq H] in
/-- The block can produce no hit, so it is spent ahead of hashed ones. -/
def spentFirst (pool : BlockPool H) (b : BlockId) : Bool :=
  (pool.blocks b).blockHash.isNone && pool.enableCaching

omit [DecidableEq H] in
theorem spentFirst_iff {pool : BlockPool H} {b : BlockId} :
    pool.spentFirst b = true ↔ (pool.blocks b).blockHash = none ∧ pool.enableCaching = true := by
  simp [spentFirst]

omit [DecidableEq H] in
/-- The loop of `free_blocks`. `released` is the blocks that reach zero, in
the order in which they do. -/
theorem dropReferences_eq (pool : BlockPool H) (ordered : List BlockId)
    (hcount : ∀ b, ordered.count b ≤ (pool.blocks b).refCnt)
    (hnull : ∀ b ∈ ordered, (pool.blocks b).isNull = false) :
    ∃ (released : List BlockId) (pool' : BlockPool H),
      pool.dropReferences ordered = .ok
        (released.filter pool.spentFirst, released.filter fun b => !pool.spentFirst b, pool') ∧
      pool' = { pool with blocks := pool'.blocks } ∧
      (∀ c, pool'.blocks c =
        (pool.blocks c).withRefCnt ((pool.blocks c).refCnt - ordered.count c)) ∧
      released.Sublist ordered ∧ released.Nodup ∧
      ∀ c, c ∈ released ↔ c ∈ ordered ∧ (pool.blocks c).refCnt = ordered.count c := by
  induction ordered generalizing pool with
  | nil => exact ⟨[], pool, rfl, rfl, fun _ => rfl, List.Sublist.refl _, List.nodup_nil, by simp⟩
  | cons b rest ih =>
      -- the first block gives up one reference before the rest is gone through
      set dropped := pool.modifyBlock b fun block => block.withRefCnt (block.refCnt - 1)
        with hdropped
      have hblocks : ∀ c, dropped.blocks c =
          (pool.blocks c).withRefCnt ((pool.blocks c).refCnt - if c = b then 1 else 0) := by
        intro c
        rw [hdropped, modifyBlock_blocks]
        split <;> rfl
      have hb := hcount b
      rw [List.count_cons_self] at hb
      have hcount' : ∀ c, rest.count c ≤ (dropped.blocks c).refCnt := by
        intro c
        have hc := hcount c
        rw [List.count_cons] at hc
        rw [hblocks, KVCacheBlock.withRefCnt_refCnt]
        simp only [beq_iff_eq, eq_comm (a := b)] at hc
        omega
      obtain ⟨released, pool', hok, hpool', hfinal, hsub, hnd, hmem⟩ := ih dropped hcount'
        fun c hc => by
        rw [hblocks]
        exact hnull c (List.mem_cons_of_mem _ hc)
      have hspent : dropped.spentFirst = pool.spentFirst := by
        funext c
        have hcaching : dropped.enableCaching = pool.enableCaching := rfl
        simp [spentFirst, hblocks, hcaching]
      rw [hspent] at hok
      have hbnull : (dropped.blocks b).isNull = false := by
        rw [hblocks, KVCacheBlock.withRefCnt_isNull]
        exact hnull b List.mem_cons_self
      have hdb : (dropped.blocks b).refCnt = (pool.blocks b).refCnt - 1 := by
        rw [hblocks, KVCacheBlock.withRefCnt_refCnt, if_pos rfl]
      have hne : (pool.blocks b).refCnt ≠ 0 := by omega
      have hpool : pool' = { pool with blocks := pool'.blocks } := by
        rw [hpool', hdropped]
        rfl
      have hfinal' : ∀ c, pool'.blocks c =
          (pool.blocks c).withRefCnt ((pool.blocks c).refCnt - (b :: rest).count c) := by
        intro c
        rw [hfinal, hblocks, KVCacheBlock.withRefCnt_withRefCnt, KVCacheBlock.withRefCnt_refCnt,
          List.count_cons]
        simp only [beq_iff_eq, eq_comm (a := b)]
        congr 1
        omega
      have hmem' : ∀ c, c ≠ b → (c ∈ released ↔
          c ∈ b :: rest ∧ (pool.blocks c).refCnt = (b :: rest).count c) := by
        intro c hc
        rw [hmem, hblocks, KVCacheBlock.withRefCnt_refCnt, List.count_cons_of_ne (Ne.symm hc)]
        simp [hc]
      by_cases hzero : (dropped.blocks b).refCnt = 0
      · -- its last reference goes here: it is not named again
        have hrest : rest.count b = 0 := by omega
        have hbrest : b ∉ rest := List.count_eq_zero.mp hrest
        refine ⟨b :: released, pool', ?_, hpool, hfinal', hsub.cons_cons b,
          List.nodup_cons.mpr ⟨fun h => hbrest (hsub.subset h), hnd⟩, ?_⟩
        · have hcond : dropped.spentFirst b = true ↔ _ := spentFirst_iff
          rw [hspent] at hcond
          cases hs : pool.spentFirst b
          · rw [hs] at hcond
            simp [dropReferences, hne, ← hdropped, hok, hzero, hbnull, ← hcond, hs]
          · rw [hs] at hcond
            simp [dropReferences, hne, ← hdropped, hok, hzero, hbnull, ← hcond, hs]
        · intro c
          by_cases hc : c = b
          · subst hc
            have : (pool.blocks c).refCnt = 1 := by omega
            simp [this, hrest]
          · rw [List.mem_cons, or_iff_right hc]
            exact hmem' c hc
      · -- it is released further on, if at all
        refine ⟨released, pool', ?_, hpool, hfinal', hsub.cons b, hnd, ?_⟩
        · simp [dropReferences, hne, ← hdropped, hok, hzero]
        · intro c
          by_cases hc : c = b
          · subst hc
            rw [hmem, List.count_cons_self]
            have hne' : (dropped.blocks c).refCnt + 1 = (pool.blocks c).refCnt := by omega
            constructor
            · rintro ⟨hc, heq⟩
              exact ⟨List.mem_cons_self, by omega⟩
            · rintro ⟨-, heq⟩
              refine ⟨?_, by omega⟩
              by_contra hc
              have := List.count_eq_zero.mpr hc
              omega
          · exact hmem' c hc

/-- Where freed blocks go: the ones without a hash to the front of the queue
(when caching is on), the others to the back. -/
def requeue (pool : BlockPool H) (free released : List BlockId) : List BlockId :=
  released.filter pool.spentFirst ++ (free ++ released.filter fun b => !pool.spentFirst b)

omit [DecidableEq H] in
theorem mem_requeue {pool : BlockPool H} {free released : List BlockId} {b : BlockId} :
    b ∈ pool.requeue free released ↔ b ∈ free ∨ b ∈ released := by
  unfold requeue
  simp only [List.mem_append, List.mem_filter]
  cases pool.spentFirst b <;> simp [or_comm]

omit [DecidableEq H] in
theorem nodup_requeue (pool : BlockPool H) {free released : List BlockId} (hfree : free.Nodup)
    (hreleased : released.Nodup) (hsep : ∀ b ∈ released, b ∉ free) :
    (pool.requeue free released).Nodup := by
  refine List.nodup_append.mpr ⟨hreleased.filter _,
    List.nodup_append.mpr ⟨hfree, hreleased.filter _, ?_⟩, ?_⟩
  · rintro a ha b hb rfl
    exact hsep a (List.mem_filter.mp hb).1 ha
  · rintro a ha b hb rfl
    obtain ⟨har, hap⟩ := List.mem_filter.mp ha
    rcases List.mem_append.mp hb with hb | hb
    · exact hsep a har hb
    · have := (List.mem_filter.mp hb).2
      simp [hap] at this

/-- What `free_blocks` does to a pool in order: every block that is not the
null block loses a reference for each time it is named, and those that reach
zero join the queue. -/
theorem WellFormed.freeBlocks {pool : BlockPool H} {free : List BlockId}
    (h : WellFormed pool free) (ordered : List BlockId)
    (hcount : ∀ b, (pool.blocks b).isNull = false → ordered.count b ≤ (pool.blocks b).refCnt)
    (hlt : ∀ b ∈ ordered, b < pool.numGpuBlocks) :
    ∃ released pool', pool.freeBlocks ordered = .ok pool' ∧
      WellFormed pool' (pool.requeue free released) ∧ SameFrame pool pool' ∧
      (∀ c, pool'.blocks c = (pool.blocks c).withRefCnt
        (if (pool.blocks c).isNull then (pool.blocks c).refCnt
          else (pool.blocks c).refCnt - ordered.count c)) ∧
      released.Sublist ordered ∧ released.Nodup ∧
      ∀ c, c ∈ released ↔ c ∈ ordered ∧ (pool.blocks c).isNull = false ∧
        (pool.blocks c).refCnt = ordered.count c := by
  -- the null block is passed over
  set kept := ordered.filter fun b => !(pool.blocks b).isNull with hkept
  have hkeptCount : ∀ b, kept.count b = if (pool.blocks b).isNull then 0 else ordered.count b := by
    intro b
    cases hn : (pool.blocks b).isNull
    · rw [hkept, List.count_filter (by simpa using hn)]
      simp
    · rw [List.count_eq_zero.mpr (by simp [hkept, hn])]
      simp
  obtain ⟨released, pool', hok, hpool', hblocks, hsub, hnd, hmem⟩ :=
    dropReferences_eq pool kept
      (fun b => by
        rw [hkeptCount]
        split
        · exact Nat.zero_le _
        · rename_i hn
          exact hcount b (by simpa using hn))
      fun b hb => by simpa using (List.mem_filter.mp hb).2
  have hmem' : ∀ c, c ∈ released ↔ c ∈ ordered ∧ (pool.blocks c).isNull = false ∧
      (pool.blocks c).refCnt = ordered.count c := by
    intro c
    rw [hmem, hkept, List.mem_filter, ← hkept, hkeptCount]
    cases (pool.blocks c).isNull <;> simp
  -- a block that is released had references, so it was not in the queue
  have hnotFree : ∀ b ∈ released, b ∉ free := by
    intro b hb hb'
    obtain ⟨hbo, -, heq⟩ := (hmem' b).mp hb
    have hzero := ((h.mem_free b).mp hb').2
    rw [heq] at hzero
    exact List.count_eq_zero.mp hzero hbo
  have hqnd := nodup_requeue pool h.queue.nodup hnd hnotFree
  have hfront : (released.filter pool.spentFirst ++ free).Nodup := by
    rw [requeue, ← List.append_assoc] at hqnd
    exact (List.nodup_append.mp hqnd).1
  have hqueue₀ : pool'.freeBlockQueue = pool.freeBlockQueue := by rw [hpool']
  obtain ⟨q₁, hq₁, hrep₁⟩ := prependN_eq h.queue hfront
  obtain ⟨q₂, hq₂, hrep₂⟩ := appendN_eq hrep₁ (by
    rw [List.append_assoc]
    exact hqnd)
  rw [List.append_assoc, ← requeue] at hrep₂
  have hblocks' : ∀ c, pool'.blocks c = (pool.blocks c).withRefCnt
      (if (pool.blocks c).isNull then (pool.blocks c).refCnt
        else (pool.blocks c).refCnt - ordered.count c) := by
    intro c
    rw [hblocks, hkeptCount]
    split <;> simp
  have hnum : pool'.numGpuBlocks = pool.numGpuBlocks := by rw [hpool']
  have hnullBlock : pool'.nullBlock = pool.nullBlock := by rw [hpool']
  refine ⟨released, { pool' with freeBlockQueue := q₂ }, ?_, ⟨?_, hrep₂, ?_, ?_⟩, ?_, hblocks',
    hsub.trans List.filter_sublist, hnd, hmem'⟩
  · simp [BlockPool.freeBlocks, ← hkept, hok, hqueue₀, hq₁, hq₂]
  · refine h.toIndexed.congr ⟨hnum, by rw [hpool'], hnullBlock⟩ (by rw [hpool']) ?_ ?_
    · intro b
      rw [hblocks', KVCacheBlock.withRefCnt_blockHash]
    · intro b
      rw [hblocks', KVCacheBlock.withRefCnt_isNull]
  · intro b
    rw [mem_requeue, h.mem_free, hmem']
    simp only [hnum, hblocks', KVCacheBlock.withRefCnt_refCnt]
    constructor
    · rintro (⟨hlt', hzero⟩ | ⟨hbo, hn, heq⟩)
      · exact ⟨hlt', by split <;> omega⟩
      · exact ⟨hlt b hbo, by simp [hn, heq]⟩
    · rintro ⟨hlt', hzero⟩
      by_cases hn : (pool.blocks b).isNull
      · exact Or.inl ⟨hlt', by simpa [hn] using hzero⟩
      · have hn' : (pool.blocks b).isNull = false := by simpa using hn
        have hle := hcount b hn'
        simp only [hn', Bool.false_eq_true, if_false] at hzero
        by_cases hbo : b ∈ ordered
        · exact Or.inr ⟨hbo, hn', by omega⟩
        · have := List.count_eq_zero.mpr hbo
          exact Or.inl ⟨hlt', by omega⟩
  · intro b hb
    rw [hnullBlock] at hb
    simp only [hblocks', KVCacheBlock.withRefCnt_refCnt, (h.isNull_iff b).mpr hb, if_true]
    exact h.null_pinned b hb
  · exact ⟨hnum, by rw [hpool'], hnullBlock⟩

/-! ### Publishing -/

omit [DecidableEq H] in
/-- The hash a block carries once `entries` have been offered: a hashed block
and the null block keep what they have, another takes its first entry's. -/
def publishedHash (pool : BlockPool H) (groupId : ℕ) (entries : List (H × BlockId)) (b : BlockId) :
    Option (BlockHashWithGroupId H) :=
  if (pool.blocks b).blockHash ≠ none ∨ (pool.blocks b).isNull = true then
    (pool.blocks b).blockHash
  else
    (entries.find? fun entry => entry.2 = b).map fun entry => (entry.1, groupId)

theorem cacheFullBlock_frame (groupId : ℕ) (pool : BlockPool H) (entry : H × BlockId) :
    SameFrame pool (cacheFullBlock groupId pool entry) ∧
      (cacheFullBlock groupId pool entry).freeBlockQueue = pool.freeBlockQueue := by
  unfold cacheFullBlock
  split
  · exact ⟨SameFrame.refl _, rfl⟩
  · split
    · exact ⟨SameFrame.refl _, rfl⟩
    · exact ⟨⟨rfl, rfl, rfl⟩, rfl⟩

theorem cacheFullBlock_blocks (groupId : ℕ) (pool : BlockPool H) (entry : H × BlockId)
    (c : BlockId) :
    (cacheFullBlock groupId pool entry).blocks c =
      if c = entry.2 ∧ (pool.blocks c).blockHash = none ∧ (pool.blocks c).isNull = false then
        (pool.blocks c).setBlockHash (entry.1, groupId)
      else pool.blocks c := by
  unfold cacheFullBlock
  by_cases hc : c = entry.2
  · subst hc
    by_cases hh : (pool.blocks entry.2).blockHash = none
    · cases (pool.blocks entry.2).isNull
      · simp [hh, modifyBlock_blocks]
      · simp [hh]
    · simp [hh]
  · split
    · simp [hc]
    · split
      · simp [hc]
      · simp [modifyBlock_blocks, hc]

theorem Indexed.cacheFullBlock {pool : BlockPool H} (h : Indexed pool) (groupId : ℕ)
    {entry : H × BlockId} (hlt : entry.2 < pool.numGpuBlocks) :
    Indexed (cacheFullBlock groupId pool entry) := by
  have hframe := (cacheFullBlock_frame groupId pool entry).1
  have hblocks := cacheFullBlock_blocks groupId pool entry
  -- a block that has a hash keeps it, and the null block gets none
  by_cases hskip : (pool.blocks entry.2).blockHash ≠ none ∨ (pool.blocks entry.2).isNull = true
  · have hsame : BlockPool.cacheFullBlock groupId pool entry = pool := by
      unfold BlockPool.cacheFullBlock
      rcases hskip with hh | hn
      · simp [hh]
      · simp [hn]
    rwa [hsame]
  rw [not_or, not_not, Bool.not_eq_true] at hskip
  obtain ⟨hnone, hnull⟩ := hskip
  set key : BlockHashWithGroupId H := (entry.1, groupId) with hkey
  set old := pool.cachedBlockHashToBlock.findD key [] with hold
  have hnew : entry.2 ∉ old := by
    rw [hold, h.indexed, hnone]
    simp
  have hcached : (BlockPool.cacheFullBlock groupId pool entry).cachedBlockHashToBlock =
      pool.cachedBlockHashToBlock.store key (old ++ [entry.2]) := by
    simp [BlockPool.cacheFullBlock, hnone, hnull, ← hkey, ← hold, hnew]
  have hkeep : ∀ c, c ≠ entry.2 →
      (BlockPool.cacheFullBlock groupId pool entry).blocks c = pool.blocks c := by
    intro c hc
    rw [hblocks, if_neg fun hcond => hc hcond.1]
  have hset : (BlockPool.cacheFullBlock groupId pool entry).blocks entry.2 =
      (pool.blocks entry.2).setBlockHash key := by
    rw [hblocks, if_pos ⟨rfl, hnone, hnull⟩]
  constructor
  · intro key' c
    rw [hcached, Dict.findD_store]
    by_cases hc : c = entry.2
    · subst hc
      rw [hset, KVCacheBlock.setBlockHash_blockHash]
      by_cases hk : key' = key
      · simp [hk]
      · rw [if_neg hk, h.indexed, hnone]
        simp [Ne.symm hk]
    · rw [hkeep c hc]
      by_cases hk : key' = key
      · rw [if_pos hk, List.mem_append, List.mem_singleton, or_iff_left hc, hold, h.indexed, hk]
      · rw [if_neg hk, h.indexed]
  · intro key' l hfind
    rw [hcached, Dict.find_store] at hfind
    split at hfind
    · rw [← Option.some.inj hfind]
      have hnd : old.Nodup := by
        rw [hold]
        unfold Dict.findD
        cases hf : pool.cachedBlockHashToBlock.find key with
        | none => simp
        | some l' => exact (h.entries key l' hf).2
      refine ⟨by simp, List.nodup_append.mpr ⟨hnd, by simp, ?_⟩⟩
      -- the block is appended to those that are listed, and was not one of them
      rintro a ha b hb rfl
      exact hnew (List.mem_singleton.mp hb ▸ ha)
    · exact h.entries key' l hfind
  · intro c
    rw [hframe.numGpuBlocks]
    by_cases hc : c = entry.2
    · exact fun _ => hc ▸ hlt
    · rw [hkeep c hc]
      exact h.hashed_lt c
  · intro c
    rw [hframe.nullBlock, ← h.isNull_iff, hblocks]
    split <;> rfl
  · intro c
    rw [hframe.nullBlock, hframe.numGpuBlocks]
    exact h.null_lt c
  · intro c hc
    rw [hframe.nullBlock] at hc
    have hne : c ≠ entry.2 := by
      rintro rfl
      rw [(h.isNull_iff _).mpr hc] at hnull
      cases hnull
    rw [hkeep c hne]
    exact h.null_unhashed c hc

/-- What `cache_full_blocks` does to a pool in order: nothing but give hashes
to blocks that had none. -/
theorem WellFormed.cacheEntries {pool : BlockPool H} {free : List BlockId}
    (h : WellFormed pool free) (groupId : ℕ) (entries : List (H × BlockId))
    (hlt : ∀ entry ∈ entries, entry.2 < pool.numGpuBlocks) :
    WellFormed (entries.foldl (BlockPool.cacheFullBlock groupId) pool) free ∧
      SameFrame pool (entries.foldl (BlockPool.cacheFullBlock groupId) pool) ∧
      ∀ c, ((entries.foldl (BlockPool.cacheFullBlock groupId) pool).blocks c).refCnt =
          (pool.blocks c).refCnt ∧
        ((entries.foldl (BlockPool.cacheFullBlock groupId) pool).blocks c).isNull =
          (pool.blocks c).isNull ∧
        ((entries.foldl (BlockPool.cacheFullBlock groupId) pool).blocks c).blockHash =
          pool.publishedHash groupId entries c := by
  induction entries generalizing pool with
  | nil =>
      refine ⟨h, SameFrame.refl _, fun c => ⟨rfl, rfl, ?_⟩⟩
      unfold publishedHash
      split
      · rfl
      · rename_i hc
        rw [not_or, not_not] at hc
        simpa using hc.1
  | cons entry rest ih =>
      obtain ⟨hframe, hqueue⟩ := cacheFullBlock_frame groupId pool entry
      have hblocks := cacheFullBlock_blocks groupId pool entry
      have hwf : WellFormed (BlockPool.cacheFullBlock groupId pool entry) free := by
        refine ⟨h.toIndexed.cacheFullBlock groupId (hlt entry List.mem_cons_self), ?_, ?_, ?_⟩
        · rw [hqueue]
          exact h.queue
        · intro b
          rw [h.mem_free, hframe.numGpuBlocks, hblocks]
          split <;> rfl
        · intro b hb
          rw [hframe.nullBlock] at hb
          rw [hblocks]
          split <;> exact h.null_pinned b hb
      obtain ⟨hwf', hframe', hfinal⟩ := ih hwf fun e he => by
        rw [hframe.numGpuBlocks]
        exact hlt e (List.mem_cons_of_mem _ he)
      refine ⟨hwf', hframe.trans hframe', fun c => ?_⟩
      obtain ⟨href, hnull, hhash⟩ := hfinal c
      rw [List.foldl_cons, href, hnull, hhash]
      refine ⟨by rw [hblocks]; split <;> rfl, by rw [hblocks]; split <;> rfl, ?_⟩
      unfold publishedHash
      rw [hblocks, List.find?_cons]
      by_cases hc : c = entry.2
      · subst hc
        by_cases hskip : (pool.blocks entry.2).blockHash = none ∧
            (pool.blocks entry.2).isNull = false
        · simp [hskip.1, hskip.2]
        · -- a block that has a hash, or is the null block, is left as it is
          have hskip' : (pool.blocks entry.2).blockHash ≠ none ∨
              (pool.blocks entry.2).isNull = true := by
            rw [not_and_or, Bool.not_eq_false] at hskip
            exact hskip
          have hcond : ¬ (entry.2 = entry.2 ∧ (pool.blocks entry.2).blockHash = none ∧
              (pool.blocks entry.2).isNull = false) := fun hcond => hskip hcond.2
          rw [if_neg hcond, if_pos hskip', if_pos hskip']
      · simp [hc, Ne.symm hc]

/-! ### Resetting -/

theorem evictRange_blocks (pool : BlockPool H) (l : List BlockId) :
    let evicted := l.foldl (fun pool b => (pool.maybeEvictCachedBlock b).2) pool
    SameFrame pool evicted ∧ evicted.freeBlockQueue = pool.freeBlockQueue ∧
      ∀ c, evicted.blocks c = if c ∈ l then (pool.blocks c).resetHash else pool.blocks c := by
  induction l generalizing pool with
  | nil => exact ⟨SameFrame.refl _, rfl, by simp⟩
  | cons b l ih =>
      obtain ⟨hframe, hqueue, hblocks⟩ := ih (pool.maybeEvictCachedBlock b).2
      refine ⟨(maybeEvict_frame pool b).trans hframe, hqueue.trans (maybeEvict_queue pool b), ?_⟩
      intro c
      rw [List.foldl_cons, hblocks, maybeEvict_blocks]
      by_cases hc : c = b
      · subst hc
        by_cases hcl : c ∈ l
        · simp [hcl, KVCacheBlock.resetHash]
        · simp [hcl]
      · simp [hc]

/-- What `reset_prefix_cache` does to a pool in order: either nothing, or
every hash is dropped, and then no block but the null block is in use. -/
theorem WellFormed.resetPrefixCache {pool : BlockPool H} {free : List BlockId}
    (h : WellFormed pool free) :
    WellFormed pool.resetPrefixCache.2 free ∧ SameFrame pool pool.resetPrefixCache.2 ∧
      (∀ c, (pool.resetPrefixCache.2.blocks c).refCnt = (pool.blocks c).refCnt ∧
        (pool.resetPrefixCache.2.blocks c).isNull = (pool.blocks c).isNull) ∧
      (pool.resetPrefixCache.1 = false ∧ pool.resetPrefixCache.2 = pool ∨
        pool.resetPrefixCache.1 = true ∧
          ∀ c, (pool.resetPrefixCache.2.blocks c).blockHash = none) := by
  by_cases hused : 0 < pool.numUsableBlocks - pool.getNumFreeBlocks
  · -- a block is in use, and nothing is dropped
    have hsame : pool.resetPrefixCache = (false, pool) := if_pos hused
    rw [hsame]
    exact ⟨h, SameFrame.refl _, fun _ => ⟨rfl, rfl⟩, Or.inl ⟨rfl, rfl⟩⟩
  obtain ⟨hframe, hqueue, hblocks⟩ := evictRange_blocks pool (List.range pool.numGpuBlocks)
  set evicted := (List.range pool.numGpuBlocks).foldl
    (fun pool b => (pool.maybeEvictCachedBlock b).2) pool with hevicted
  have hreset : pool.resetPrefixCache =
      (true, { evicted with cachedBlockHashToBlock := .empty, numEvictedBlocks := 0 }) :=
    if_neg hused
  have hsame : ∀ c, (evicted.blocks c).refCnt = (pool.blocks c).refCnt ∧
      (evicted.blocks c).isNull = (pool.blocks c).isNull := by
    intro c
    rw [hblocks]
    split <;> exact ⟨rfl, rfl⟩
  have hnone : ∀ c, (evicted.blocks c).blockHash = none := by
    intro c
    rw [hblocks]
    split
    · rfl
    · rename_i hc
      by_contra hh
      exact hc (List.mem_range.mpr (h.hashed_lt c hh))
  rw [hreset]
  refine ⟨⟨⟨?_, ?_, ?_, ?_, ?_, ?_⟩, ?_, ?_, ?_⟩, ⟨hframe.1, hframe.2, hframe.3⟩, hsame,
    Or.inr ⟨rfl, hnone⟩⟩
  · intro key b
    simp [hnone]
  · intro key l hl
    simp at hl
  · intro b hb
    exact absurd (hnone b) hb
  · intro b
    rw [(hsame b).2, h.isNull_iff]
    simp [hframe.nullBlock]
  · intro b hb
    have hb' : pool.nullBlock = some b := by simpa [hframe.nullBlock] using hb
    simpa [hframe.numGpuBlocks] using h.null_lt b hb'
  · exact fun b _ => hnone b
  · have hrep := h.queue
    rw [← hqueue] at hrep
    exact hrep
  · intro b
    rw [h.mem_free, (hsame b).1]
    simp [hframe.numGpuBlocks]
  · intro b hb
    rw [(hsame b).1]
    exact h.null_pinned b (by simpa [hframe.nullBlock] using hb)

/-! ### A fresh pool -/

omit [DecidableEq H] in
/-- A pool just built is in order, with every block but the null block free. -/
theorem init_wellFormed [DecidableEq H] {n : ℕ} {caching events reserve : Bool} {pool : BlockPool H}
    (h : init n caching events reserve = .ok pool) :
    WellFormed pool
      (if reserve then List.range' 1 (n - 1) else List.range n) ∧
    pool.numGpuBlocks = n ∧ pool.enableCaching = caching ∧
    (pool.nullBlock.isSome = reserve) ∧
    ∀ b, (pool.blocks b).blockHash = none ∧
      ((pool.blocks b).isNull = false → (pool.blocks b).refCnt = 0) := by
  unfold init at h
  split at h
  · cases h
  rename_i hn
  split at h
  · cases h
  split at h
  · cases h
  rename_i hreserve
  injection h with h
  subst h
  cases reserve with
  | true =>
      -- the null block is the first one of the queue, and is taken off
      have hn2 : 2 ≤ n := by
        by_contra hlt
        exact hreserve ⟨rfl, Nat.not_le.mp hlt⟩
      refine ⟨⟨⟨?_, ?_, ?_, ?_, ?_, ?_⟩, ?_, ?_, ?_⟩, rfl, rfl, rfl, ?_⟩
      · intro key b
        simp
        split <;> simp
      · intro key l hl
        simp at hl
      · intro b
        simp only [true_and]
        split <;> simp
      · intro b
        simp only [true_and]
        by_cases hb : b = 0 <;> simp [hb, eq_comm]
      · intro b hb
        have hb' : b = 0 := by simpa [eq_comm] using hb
        exact hb' ▸ Nat.pos_of_ne_zero hn
      · intro b _
        simp only [true_and]
        split <;> rfl
      · exact represents_init (List.nodup_range' ..)
      · intro b
        simp only [true_and, if_true, List.mem_range'_1]
        by_cases hb : b = 0
        · simp [hb]
        · have hn1 : 1 + (n - 1) = n := by omega
          simp [hb, hn1, Nat.one_le_iff_ne_zero]
      · intro b hb
        simp at hb
        simp [← hb]
      · intro b
        by_cases hb : b = 0 <;> simp [hb]
  | false =>
      refine ⟨⟨⟨?_, ?_, ?_, ?_, ?_, ?_⟩, ?_, ?_, ?_⟩, rfl, rfl, rfl, ?_⟩
      · intro key b
        simp
      · intro key l hl
        simp at hl
      · intro b
        simp
      · intro b
        simp
      · intro b hb
        simp at hb
      · intro b
        simp
      · exact represents_init List.nodup_range
      · intro b
        simp
      · intro b hb
        simp at hb
      · intro b
        simp

end BlockPool

end Pvllm
