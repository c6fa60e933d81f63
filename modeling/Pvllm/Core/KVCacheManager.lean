import Pvllm.Core.SingleType

/-!
The coordinator and the KV cache manager.

The coordinator fans every operation out to the groups' managers, which share
one pool; here it is the list of managers, and the pool is threaded through.
`KVCacheManager` is the scheduler's view: lookup of a cached prefix, the
allocation that either fails before anything changes or goes through, and
release.
-/

namespace Pvllm

/-- The resolved layout: every group has the engine's one block size, so a
request's block hashes speak about the blocks of every group. -/
structure KVCacheConfig where
  numBlocks : ℕ
  blockSize : ℕ
  kvCacheGroups : List KVCacheSpec
  uniform : ∀ spec ∈ kvCacheGroups, spec.blockSize = blockSize
  blockSize_pos : 0 < blockSize

namespace KVCacheCoordinator

variable {H : Type} [DecidableEq H]

/-! ### The longest prefix every group can serve -/

/-- What the coordinator's loop knows about one group. -/
structure GroupHit where
  kvCacheSpec : KVCacheSpec
  groupId : ℕ
  blocks : Option (List BlockId)
  length : ℕ

/-- Trim a full-attention list to the reconciled length; the list of another
group already ends where its run does. -/
def GroupHit.trimmed (hit : GroupHit) (numBlocks : ℕ) : List BlockId :=
  let blocks := hit.blocks.getD []
  if hit.kvCacheSpec.isFullAttention then blocks.take numBlocks else blocks

/-- One pass over the groups: each accepts the candidate length or reduces it.
Full attention is downward-closed, so it is looked up once and then trimmed. -/
def hitPass (pool : BlockPool H) (blockHashes : List H) :
    List GroupHit → ℕ → Except PyError (List GroupHit × ℕ)
  | [], current => .ok ([], current)
  | group :: rest, current =>
    if group.kvCacheSpec.isFullAttention ∧ group.blocks.isSome then
      match hitPass pool blockHashes rest (min current group.length) with
      | .error e => .error e
      | .ok (rest, current) => .ok (group :: rest, current)
    else
      match findLongestCacheHit pool group.groupId group.kvCacheSpec blockHashes current with
      | .error e => .error e
      | .ok (blocks, found) =>
        match hitPass pool blockHashes rest found with
        | .error e => .error e
        | .ok (rest, current) =>
          .ok ({ group with blocks := some blocks, length := found } :: rest, current)

/-- The fixed point: a reduction restarts the pass. -/
def hitLoop (pool : BlockPool H) (blockHashes : List H) (groups : List GroupHit) (hitLength : ℕ) :
    ℕ → Except PyError (List GroupHit × ℕ)
  | 0 => .error .outOfFuel
  | fuel + 1 =>
    match hitPass pool blockHashes groups hitLength with
    | .error e => .error e
    | .ok (groups, current) =>
      if hitLength ≤ current then .ok (groups, hitLength)
      else hitLoop pool blockHashes groups current fuel

/-- The longest prefix every group can serve: blocks per group, and tokens.
The length falls in every round but the last, so `maxLength + 1` rounds do. -/
def findLongestCacheHit (pool : BlockPool H) (managers : List SingleTypeKVCacheManager)
    (blockSize : ℕ) (blockHashes : List H) (maxLength : ℕ) :
    Except PyError (List (List BlockId) × ℕ) :=
  let groups := managers.map fun manager =>
    (⟨manager.kvCacheSpec, manager.kvCacheGroupId, none, 0⟩ : GroupHit)
  match hitLoop pool blockHashes groups maxLength (maxLength + 1) with
  | .error e => .error e
  | .ok (groups, hitLength) =>
    let numBlocks := ceilDiv hitLength blockSize
    .ok (groups.map (·.trimmed numBlocks), hitLength)

/-! ### Fanning out -/

omit [DecidableEq H] in
def getNumBlocksToAllocate (pool : BlockPool H) (requestId : RequestId) (numTokens : ℕ)
    (totalComputedTokens : ℕ) :
    List SingleTypeKVCacheManager → List (List BlockId) → Except PyError ℕ
  | [], [] => .ok 0
  | manager :: managers, hits :: newComputedBlocks =>
    match getNumBlocksToAllocate pool requestId numTokens totalComputedTokens
        managers newComputedBlocks with
    | .error e => .error e
    | .ok n =>
      .ok (manager.getNumBlocksToAllocate pool requestId numTokens hits totalComputedTokens + n)
  | _, _ => .error (.valueError "zip() arguments differ in length")

def allocateNewBlocks (requestId : RequestId) (numTokens : ℕ) :
    List SingleTypeKVCacheManager → BlockPool H →
    Except PyError (List (List BlockId) × List SingleTypeKVCacheManager × BlockPool H)
  | [], pool => .ok ([], [], pool)
  | manager :: managers, pool =>
    match manager.allocateNewBlocks pool requestId numTokens with
    | .error e => .error e
    | .ok (newBlocks, manager, pool) =>
      match allocateNewBlocks requestId numTokens managers pool with
      | .error e => .error e
      | .ok (rest, managers, pool) => .ok (newBlocks :: rest, manager :: managers, pool)

def adoptCachedBlocks (requestId : RequestId) :
    List SingleTypeKVCacheManager → List (List BlockId) →
    Except PyError (List SingleTypeKVCacheManager)
  | [], [] => .ok []
  | manager :: managers, blocks :: rest =>
    match manager.adoptCachedBlocks requestId blocks with
    | .error e => .error e
    | .ok manager =>
      match adoptCachedBlocks requestId managers rest with
      | .error e => .error e
      | .ok managers => .ok (manager :: managers)
  | _, _ => .error (.valueError "zip() arguments differ in length")

omit [DecidableEq H] in
def removeSkippedBlocks (requestId : RequestId) (numComputedTokens : ℕ) :
    List SingleTypeKVCacheManager → BlockPool H →
    Except PyError (List SingleTypeKVCacheManager × BlockPool H)
  | [], pool => .ok ([], pool)
  | manager :: managers, pool =>
    match manager.removeSkippedBlocks pool requestId numComputedTokens with
    | .error e => .error e
    | .ok (manager, pool) =>
      match removeSkippedBlocks requestId numComputedTokens managers pool with
      | .error e => .error e
      | .ok (managers, pool) => .ok (manager :: managers, pool)

omit [DecidableEq H] in
def free (requestId : RequestId) :
    List SingleTypeKVCacheManager → BlockPool H →
    Except PyError (List SingleTypeKVCacheManager × BlockPool H)
  | [], pool => .ok ([], pool)
  | manager :: managers, pool =>
    match manager.free pool requestId with
    | .error e => .error e
    | .ok (manager, pool) =>
      match free requestId managers pool with
      | .error e => .error e
      | .ok (managers, pool) => .ok (manager :: managers, pool)

end KVCacheCoordinator

/-- Cache effectiveness counters. -/
structure PrefixCacheStats where
  queries : ℕ
  hits : ℕ
deriving Repr, DecidableEq

structure KVCacheManager (H : Type) where
  kvCacheConfig : KVCacheConfig
  maxModelLen : ℕ
  enableCaching : Bool
  blockPool : BlockPool H
  singleTypeManagers : List SingleTypeKVCacheManager
  prefixCacheStats : PrefixCacheStats
  hashFn : HashInput H → H
  seed : ℕ

namespace KVCacheManager

variable {H : Type} [DecidableEq H]

omit [DecidableEq H] in
def init (kvCacheConfig : KVCacheConfig) (maxModelLen : ℕ) (enableCaching : Bool)
    (enableKvCacheEvents : Bool) (hashFn : HashInput H → H) (seed : ℕ) :
    Except PyError (KVCacheManager H) :=
  if kvCacheConfig.kvCacheGroups = [] then
    .error (.valueError "KVCacheConfig has no groups; block size is undefined")
  else
    match BlockPool.init kvCacheConfig.numBlocks enableCaching enableKvCacheEvents
        (kvCacheConfig.kvCacheGroups.any (·.isSkipping)) with
    | .error e => .error e
    | .ok blockPool =>
      .ok {
        kvCacheConfig := kvCacheConfig
        maxModelLen := maxModelLen
        enableCaching := enableCaching
        blockPool := blockPool
        singleTypeManagers := kvCacheConfig.kvCacheGroups.mapIdx fun groupId spec =>
          ⟨spec, groupId, .empty⟩
        prefixCacheStats := ⟨0, 0⟩
        hashFn := hashFn
        seed := seed }

omit [DecidableEq H] in
def blockHasher (manager : KVCacheManager H) : Option (BlockHasher H) :=
  if manager.enableCaching then
    some ⟨manager.kvCacheConfig.blockSize, manager.kvCacheConfig.blockSize_pos, manager.hashFn,
      manager.seed⟩
  else
    none

omit [DecidableEq H] in
def hasSkippingGroups (manager : KVCacheManager H) : Bool :=
  manager.kvCacheConfig.kvCacheGroups.any (·.isSkipping)

omit [DecidableEq H] in
/-- The result for a request that got nothing. -/
def emptyBlocks (manager : KVCacheManager H) : List (List BlockId) :=
  manager.singleTypeManagers.map fun _ => []

omit [DecidableEq H] in
def getBlocks (manager : KVCacheManager H) (requestId : RequestId) : List (List BlockId) :=
  manager.singleTypeManagers.map (·.getBlocks requestId)

/-- The longest cached prefix for a request, and its token count. At least one
token is always recomputed. -/
def getComputedBlocks (manager : KVCacheManager H) (request : Request H) :
    Except PyError ((List (List BlockId) × ℕ) × KVCacheManager H) :=
  if manager.enableCaching = false ∨ 0 < request.numComputedTokens then
    .ok ((manager.emptyBlocks, 0), manager)
  else
    match KVCacheCoordinator.findLongestCacheHit manager.blockPool manager.singleTypeManagers
        manager.kvCacheConfig.blockSize request.blockHashes (request.numTokens - 1) with
    | .error e => .error e
    | .ok (perGroup, numComputedTokens) =>
      let manager := { manager with prefixCacheStats :=
        ⟨manager.prefixCacheStats.queries + request.numTokens,
          manager.prefixCacheStats.hits + numComputedTokens⟩ }
      if numComputedTokens = 0 then
        .ok ((manager.emptyBlocks, 0), manager)
      else
        .ok ((perGroup, numComputedTokens), manager)

/-- Register every block of one group that is now complete. The run already
dealt with is the leading blocks that are hashed or null. -/
def cacheGroupBlocks (request : Request H) (numFullBlocks : ℕ) (pool : BlockPool H)
    (manager : SingleTypeKVCacheManager) : BlockPool H :=
  let blocks := manager.getBlocks request.requestId
  if blocks = [] then
    pool
  else
    let numAlreadyCached := (blocks.takeWhile fun b =>
      (pool.blocks b).blockHash.isSome || (pool.blocks b).isNull).length
    pool.cacheFullBlocks request.blockHashes blocks numAlreadyCached numFullBlocks
      manager.kvCacheGroupId

def cacheFullBlocks (manager : KVCacheManager H) (request : Request H) (numTokens : ℕ) :
    KVCacheManager H :=
  let numFullBlocks := min (numTokens / manager.kvCacheConfig.blockSize) request.blockHashes.length
  { manager with blockPool :=
      manager.singleTypeManagers.foldl (cacheGroupBlocks request numFullBlocks) manager.blockPool }

omit [DecidableEq H] in
/-- The slots `allocate_slots` reserves for: never past the length cap. -/
def numTokensNeedingSlots (manager : KVCacheManager H) (request : Request H)
    (numNewTokens numNewComputedTokens numLookaheadTokens : ℕ) : ℕ :=
  min (request.numComputedTokens + numNewComputedTokens + numNewTokens + numLookaheadTokens)
    manager.maxModelLen

omit [DecidableEq H] in
/-- The hits per group an allocation works with: none unless there is a block. -/
def perGroupCached (manager : KVCacheManager H)
    (newComputedBlocks : Option (List (List BlockId))) : List (List BlockId) :=
  match newComputedBlocks with
  | some blocks => if (blocks.map List.length).sum ≠ 0 then blocks else manager.emptyBlocks
  | none => manager.emptyBlocks

omit [DecidableEq H] in
/-- The hits that are blocks to take, not placeholders. -/
def cachedBlocks (manager : KVCacheManager H) (perGroupCached : List (List BlockId)) :
    List BlockId :=
  perGroupCached.flatten.filter fun b => !(manager.blockPool.blocks b).isNull

/-- Take a reference to the hits and install them, when there are any. -/
def adoptHits (manager : KVCacheManager H) (requestId : RequestId)
    (perGroupCached : List (List BlockId)) :
    Except PyError (List SingleTypeKVCacheManager × BlockPool H) :=
  if manager.cachedBlocks perGroupCached = [] then
    .ok (manager.singleTypeManagers, manager.blockPool)
  else
    match manager.blockPool.touch (manager.cachedBlocks perGroupCached) with
    | .error e => .error e
    | .ok pool =>
      match KVCacheCoordinator.adoptCachedBlocks requestId manager.singleTypeManagers
          perGroupCached with
      | .error e => .error e
      | .ok managers => .ok (managers, pool)

/-- Reserve slots for more tokens: the newly allocated blocks, or `none` when
the pool cannot cover the request. -/
def allocateSlots (manager : KVCacheManager H) (request : Request H)
    (numNewTokens numNewComputedTokens : ℕ) (newComputedBlocks : Option (List (List BlockId)))
    (numLookaheadTokens : ℕ) (delayCacheBlocks : Bool) :
    Except PyError (Option (List (List BlockId)) × KVCacheManager H) :=
  if numNewTokens = 0 then
    .error (.valueError ("allocate_slots called with num_new_tokens=0; a step that schedules a "
      ++ "request must give it at least one token"))
  else
    let numComputedTokens := request.numComputedTokens + numNewComputedTokens
    let numTokensNeedingSlots := manager.numTokensNeedingSlots request numNewTokens
      numNewComputedTokens numLookaheadTokens
    let perGroupCached := manager.perGroupCached newComputedBlocks
    match KVCacheCoordinator.getNumBlocksToAllocate manager.blockPool request.requestId
        numTokensNeedingSlots numComputedTokens manager.singleTypeManagers perGroupCached with
    | .error e => .error e
    | .ok numBlocksToAllocate =>
      -- Fail early, before anything is mutated.
      if manager.blockPool.getNumFreeBlocks < numBlocksToAllocate then
        .ok (none, manager)
      else
        match manager.adoptHits request.requestId perGroupCached with
        | .error e => .error e
        | .ok (managers, pool) =>
          match KVCacheCoordinator.allocateNewBlocks request.requestId numTokensNeedingSlots
              managers pool with
          | .error e => .error e
          | .ok (newBlocks, managers, pool) =>
            let manager := { manager with blockPool := pool, singleTypeManagers := managers }
            if manager.enableCaching ∧ delayCacheBlocks = false then
              .ok (some newBlocks,
                manager.cacheFullBlocks request (numComputedTokens + numNewTokens))
            else
              .ok (some newBlocks, manager)

omit [DecidableEq H] in
def removeSkippedBlocks (manager : KVCacheManager H) (request : Request H) :
    Except PyError (KVCacheManager H) :=
  if manager.hasSkippingGroups = false then
    .ok manager
  else
    match KVCacheCoordinator.removeSkippedBlocks request.requestId request.numComputedTokens
        manager.singleTypeManagers manager.blockPool with
    | .error e => .error e
    | .ok (managers, pool) =>
      .ok { manager with blockPool := pool, singleTypeManagers := managers }

omit [DecidableEq H] in
def free (manager : KVCacheManager H) (requestId : RequestId) : Except PyError (KVCacheManager H) :=
  match KVCacheCoordinator.free requestId manager.singleTypeManagers manager.blockPool with
  | .error e => .error e
  | .ok (managers, pool) =>
    .ok { manager with blockPool := pool, singleTypeManagers := managers }

omit [DecidableEq H] in
def getNumCommonPrefixBlocks (manager : KVCacheManager H) (runningRequestId : RequestId) : List ℕ :=
  manager.singleTypeManagers.map fun group =>
    group.getNumCommonPrefixBlocks manager.blockPool runningRequestId

def resetPrefixCache (manager : KVCacheManager H) : Bool × KVCacheManager H :=
  let (done, pool) := manager.blockPool.resetPrefixCache
  if done then
    (true, { manager with blockPool := pool, prefixCacheStats := ⟨0, 0⟩ })
  else
    (false, manager)

end KVCacheManager

end Pvllm
