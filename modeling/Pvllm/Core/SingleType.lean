import Pvllm.Core.BlockPool
import Pvllm.Core.Request

/-!
Per-group block bookkeeping.

A manager keeps, for one KV cache group, the table of blocks of each request.
The three kinds of group differ in two answers only: how much of the computed
prefix they no longer read (`getNumSkippedTokens`), and what a prefix-cache
hit is for them (`findLongestCacheHit`). Everything else is shared code of the
base class.
-/

namespace Pvllm

/-- How a layer consumes the cache. -/
inductive KVCacheKind where
  | fullAttention
  | slidingWindow (window : ℕ)
  | mamba
deriving Repr, DecidableEq

/-- The spec of a group: its kind and block size. A window holds at least one
token, as `SlidingWindowSpec.__post_init__` checks. -/
structure KVCacheSpec where
  kind : KVCacheKind
  blockSize : ℕ
  blockSize_pos : 0 < blockSize
  window_pos : ∀ window, kind = .slidingWindow window → 1 ≤ window

namespace KVCacheSpec

theorem fullAttention_window_pos (window : ℕ)
    (h : KVCacheKind.fullAttention = .slidingWindow window) : 1 ≤ window :=
  KVCacheKind.noConfusion h

def isFullAttention (spec : KVCacheSpec) : Bool := spec.kind = .fullAttention

def isSkipping (spec : KVCacheSpec) : Bool := !spec.isFullAttention

/-- How much of the computed prefix the group no longer reads: nothing for
full attention, everything older than a window, everything but the last token
for a recurrent state. -/
def getNumSkippedTokens (spec : KVCacheSpec) (numComputedTokens : ℕ) : ℕ :=
  match spec.kind with
  | .fullAttention => 0
  | .slidingWindow window => numComputedTokens - window
  | .mamba => numComputedTokens - 1

end KVCacheSpec

/-- `-(-n // d)`. -/
def ceilDiv (n d : ℕ) : ℕ := (n + d - 1) / d

theorem ceilDiv_le_iff {n d k : ℕ} (hd : 0 < d) : ceilDiv n d ≤ k ↔ n ≤ k * d := by
  unfold ceilDiv
  rw [← Nat.lt_succ_iff, Nat.div_lt_iff_lt_mul hd, Nat.succ_mul]
  omega

theorem ceilDiv_mul {n d : ℕ} (hd : 0 < d) : ceilDiv (n * d) d = n := by
  apply le_antisymm
  · exact (ceilDiv_le_iff hd).mpr le_rfl
  · exact Nat.le_of_mul_le_mul_right ((ceilDiv_le_iff hd).mp le_rfl) hd

structure SingleTypeKVCacheManager where
  kvCacheSpec : KVCacheSpec
  kvCacheGroupId : ℕ
  reqToBlocks : Dict RequestId (List BlockId)

/-! ### Prefix-cache lookup -/

section Lookup

variable {H : Type} [DecidableEq H] (pool : BlockPool H) (groupId : ℕ)

def fullAttentionScan : List H → List BlockId
  | [] => []
  | blockHash :: rest =>
    match pool.getCachedBlock blockHash groupId with
    | none => []
    | some cached => cached :: fullAttentionScan rest

/-- The loop of the windowed search, from the index below the counter down to
zero. `computed` is the list being filled, `contiguous` the length of the run
found so far. -/
def slidingWindowScan (blockHashes : List H) (needed : ℕ) (computed : List BlockId)
    (contiguous : ℕ) : ℕ → Except PyError (List BlockId)
  | 0 => .ok (computed.take contiguous)
  | index + 1 =>
    match blockHashes[index]? with
    | none => .error (.indexError "list index out of range")
    | some blockHash =>
      match pool.getCachedBlock blockHash groupId with
      | none => slidingWindowScan blockHashes needed computed 0 index
      | some cached =>
        if needed ≤ contiguous + 1 then
          .ok ((computed.set index cached).take (index + (contiguous + 1)))
        else
          slidingWindowScan blockHashes needed (computed.set index cached) (contiguous + 1) index

/-- The search for the newest cached state, from the index below the counter. -/
def mambaScan (nullBlock : BlockId) (blockHashes : List H) : ℕ → Except PyError (List BlockId)
  | 0 => .ok []
  | index + 1 =>
    match blockHashes[index]? with
    | none => .error (.indexError "list index out of range")
    | some blockHash =>
      match pool.getCachedBlock blockHash groupId with
      | some cached => .ok (List.replicate index nullBlock ++ [cached])
      | none => mambaScan nullBlock blockHashes index

/-- The longest prefix of `blockHashes` the group already holds, of at most
`maxLength` tokens: the blocks and the number of tokens they cover. -/
def findLongestCacheHit (spec : KVCacheSpec) (blockHashes : List H) (maxLength : ℕ) :
    Except PyError (List BlockId × ℕ) :=
  let maxNumBlocks := maxLength / spec.blockSize
  match spec.kind with
  | .fullAttention =>
    let computed := fullAttentionScan pool groupId (blockHashes.take maxNumBlocks)
    .ok (computed, computed.length * spec.blockSize)
  | .slidingWindow window =>
    match pool.nullBlock with
    | none => .error (.assertionError ("a sliding-window group needs the reserved null block to "
        ++ "stand in for the prefix its window no longer attends to (R6.7)"))
    | some nullBlock =>
      match slidingWindowScan pool groupId blockHashes (ceilDiv (window - 1) spec.blockSize)
          (List.replicate maxNumBlocks nullBlock) 0 maxNumBlocks with
      | .error e => .error e
      | .ok computed => .ok (computed, computed.length * spec.blockSize)
  | .mamba =>
    match pool.nullBlock with
    | none => .error (.assertionError ("a state-space group needs the reserved null block to "
        ++ "stand in for the states it did not snapshot (R6.7)"))
    | some nullBlock =>
      match mambaScan pool groupId nullBlock blockHashes maxNumBlocks with
      | .error e => .error e
      | .ok computed => .ok (computed, computed.length * spec.blockSize)

end Lookup

namespace SingleTypeKVCacheManager

variable {H : Type}

/-! ### Tables -/

def getBlocks (manager : SingleTypeKVCacheManager) (requestId : RequestId) : List BlockId :=
  manager.reqToBlocks.findD requestId []

def setBlocks (manager : SingleTypeKVCacheManager) (requestId : RequestId)
    (blocks : List BlockId) : SingleTypeKVCacheManager :=
  { manager with reqToBlocks := manager.reqToBlocks.store requestId blocks }

def popBlocks (manager : SingleTypeKVCacheManager) (requestId : RequestId) :
    SingleTypeKVCacheManager :=
  { manager with reqToBlocks := manager.reqToBlocks.delete requestId }

@[simp] theorem getBlocks_setBlocks (manager : SingleTypeKVCacheManager) (r r' : RequestId)
    (blocks : List BlockId) :
    (manager.setBlocks r blocks).getBlocks r' =
      if r' = r then blocks else manager.getBlocks r' := by
  simp [setBlocks, getBlocks]

@[simp] theorem getBlocks_popBlocks (manager : SingleTypeKVCacheManager) (r r' : RequestId) :
    (manager.popBlocks r).getBlocks r' = if r' = r then [] else manager.getBlocks r' := by
  simp [popBlocks, getBlocks]

@[simp] theorem setBlocks_kvCacheSpec (manager : SingleTypeKVCacheManager) (r : RequestId)
    (blocks : List BlockId) : (manager.setBlocks r blocks).kvCacheSpec = manager.kvCacheSpec := rfl

@[simp] theorem popBlocks_kvCacheSpec (manager : SingleTypeKVCacheManager) (r : RequestId) :
    (manager.popBlocks r).kvCacheSpec = manager.kvCacheSpec := rfl

@[simp] theorem setBlocks_kvCacheGroupId (manager : SingleTypeKVCacheManager) (r : RequestId)
    (blocks : List BlockId) :
    (manager.setBlocks r blocks).kvCacheGroupId = manager.kvCacheGroupId := rfl

@[simp] theorem popBlocks_kvCacheGroupId (manager : SingleTypeKVCacheManager) (r : RequestId) :
    (manager.popBlocks r).kvCacheGroupId = manager.kvCacheGroupId := rfl

/-! ### The operations -/

/-- Blocks the table is short of to hold `numTokens`. -/
def numMissingBlocks (manager : SingleTypeKVCacheManager) (requestId : RequestId)
    (numTokens : ℕ) : ℕ :=
  ceilDiv numTokens manager.kvCacheSpec.blockSize - (manager.getBlocks requestId).length

/-- Blocks the pool must hand over for the request to hold `numTokens`: those
its table and the hits do not cover, and the hits that sit in the free queue. -/
def getNumBlocksToAllocate (manager : SingleTypeKVCacheManager) (pool : BlockPool H)
    (requestId : RequestId) (numTokens : ℕ) (newComputedBlocks : List BlockId)
    (totalComputedTokens : ℕ) : ℕ :=
  let blockSize := manager.kvCacheSpec.blockSize
  let numRequiredBlocks := ceilDiv numTokens blockSize
  let numReqBlocks := (manager.getBlocks requestId).length
  let numSkippedBlocks := manager.kvCacheSpec.getNumSkippedTokens totalComputedTokens / blockSize
  let numLocalComputedBlocks := newComputedBlocks.length + numReqBlocks
  let numNewBlocks := numRequiredBlocks - max numSkippedBlocks numLocalComputedBlocks
  let numSkippedNewComputed := numSkippedBlocks - numReqBlocks
  let numEvictableBlocks := ((newComputedBlocks.drop numSkippedNewComputed).filter fun b =>
    (pool.blocks b).refCnt = 0 ∧ (pool.blocks b).isNull = false).length
  numNewBlocks + numEvictableBlocks

/-- Allocate and record the new blocks; returns only the newly added ones. -/
def allocateNewBlocks [DecidableEq H] (manager : SingleTypeKVCacheManager) (pool : BlockPool H)
    (requestId : RequestId) (numTokens : ℕ) :
    Except PyError (List BlockId × SingleTypeKVCacheManager × BlockPool H) :=
  let blocks := manager.getBlocks requestId
  let numNew := manager.numMissingBlocks requestId numTokens
  if numNew = 0 then
    .ok ([], manager.setBlocks requestId blocks, pool)
  else
    match pool.getNewBlocks numNew with
    | .error e => .error e
    | .ok (newBlocks, pool) =>
      .ok (newBlocks, manager.setBlocks requestId (blocks ++ newBlocks), pool)

/-- Free the head the group no longer reads, replacing it with the null block. -/
def removeSkippedBlocks (manager : SingleTypeKVCacheManager) (pool : BlockPool H)
    (requestId : RequestId) (numComputedTokens : ℕ) :
    Except PyError (SingleTypeKVCacheManager × BlockPool H) :=
  let numSkippedTokens := manager.kvCacheSpec.getNumSkippedTokens numComputedTokens
  let blocks := manager.getBlocks requestId
  if numSkippedTokens = 0 ∨ blocks = [] then
    .ok (manager, pool)
  else
    match pool.nullBlock with
    | none => .error (.assertionError ("the group sheds blocks and so needs the pool's null "
        ++ "block; BlockPool must be constructed with reserve_null_block=True"))
    | some nullBlock =>
      let numSkippedBlocks := min (numSkippedTokens / manager.kvCacheSpec.blockSize) blocks.length
      let removed := (blocks.take numSkippedBlocks).filter fun b => b ≠ nullBlock
      let manager := manager.setBlocks requestId
        (List.replicate numSkippedBlocks nullBlock ++ blocks.drop numSkippedBlocks)
      if removed = [] then
        .ok (manager, pool)
      else
        match pool.freeBlocks removed.reverse with
        | .error e => .error e
        | .ok pool => .ok (manager, pool)

/-- Install prefix-cache hits at the head of an empty table. -/
def adoptCachedBlocks (manager : SingleTypeKVCacheManager) (requestId : RequestId)
    (blocks : List BlockId) : Except PyError SingleTypeKVCacheManager :=
  let held := manager.getBlocks requestId
  if held ≠ [] then
    .error (.assertionError (s!"request {requestId} already holds {held.length} blocks; cached "
      ++ "prefix blocks must be adopted before any are allocated"))
  else
    .ok (manager.setBlocks requestId blocks)

/-- Release a request's blocks, tail first. -/
def free (manager : SingleTypeKVCacheManager) (pool : BlockPool H) (requestId : RequestId) :
    Except PyError (SingleTypeKVCacheManager × BlockPool H) :=
  let blocks := manager.getBlocks requestId
  let manager := manager.popBlocks requestId
  if blocks = [] then
    .ok (manager, pool)
  else
    match pool.freeBlocks blocks.reverse with
    | .error e => .error e
    | .ok pool => .ok (manager, pool)

/-- The leading run of blocks that every KV-holding request shares. Zero for a
group that sheds blocks. -/
def getNumCommonPrefixBlocks (manager : SingleTypeKVCacheManager) (pool : BlockPool H)
    (runningRequestId : RequestId) : ℕ :=
  if manager.kvCacheSpec.isFullAttention then
    let numHolders := (manager.reqToBlocks.items.filter fun entry => entry.2 ≠ []).length
    ((manager.getBlocks runningRequestId).takeWhile fun b =>
      (pool.blocks b).refCnt = numHolders).length
  else
    0

end SingleTypeKVCacheManager

end Pvllm
