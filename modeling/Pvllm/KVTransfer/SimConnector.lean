import Pvllm.Core.KVCacheManager

/-!
The connector over a simulated shared store: the half the scheduler calls.

The store holds block hashes under a namespace. What a transfer costs in time is
left out, and with it the byte counters.
-/

namespace Pvllm

variable {H : Type} [DecidableEq H]

/-- The store key of a block: the namespace of the model that computed it, and
its hash. -/
abbrev StoreKey (H : Type) := String × H

structure SimKVStore (H : Type) where
  capacityBlocks : Option ℕ
  resident : List (StoreKey H)
  numLookups : ℕ
  numHits : ℕ

namespace SimKVStore

/-- How many leading blocks are resident. -/
def longestPrefix (store : SimKVStore H) (blockHashes : List (StoreKey H)) :
    ℕ × SimKVStore H :=
  let matched := (blockHashes.takeWhile fun key => decide (key ∈ store.resident)).length
  (matched, { store with
    numLookups := store.numLookups + blockHashes.length
    numHits := store.numHits + matched })

/-- Store blocks, evicting oldest-first past the capacity. -/
def write (store : SimKVStore H) (blockHashes : List (StoreKey H)) : SimKVStore H :=
  let resident := blockHashes.foldl (fun resident key => resident.erase key ++ [key])
    store.resident
  { store with resident := match store.capacityBlocks with
    | none => resident
    | some capacity => resident.drop (resident.length - capacity) }

end SimKVStore

/-- One step's loads: the blocks to fill and the tokens they hold. -/
structure KVConnectorMetadata where
  loads : Dict RequestId (List BlockId × ℕ)

structure SimSharedStoreConnector (H : Type) where
  blockSize : ℕ
  store : SimKVStore H
  keySpace : String
  mayLoad : Bool
  maySave : Bool
  blockBytes : ℕ
  pendingLoads : Dict RequestId (List BlockId × ℕ)

namespace SimSharedStoreConnector

omit [DecidableEq H] in
def setup (connector : SimSharedStoreConnector H) : ℕ × String × Bool × Bool × ℕ :=
  (connector.blockSize, connector.keySpace, connector.mayLoad, connector.maySave,
    connector.blockBytes)

variable (connector : SimSharedStoreConnector H)

/-- How much of a prompt the store holds beyond what is cached locally, one
block held back where nothing would be left to compute. -/
def getNumNewMatchedTokens (request : Request H) (numComputedTokens : ℕ) :
    ℕ × SimSharedStoreConnector H :=
  if connector.mayLoad = false ∨ request.blockHashes = [] ∨ connector.blockBytes = 0 then
    (0, connector)
  else
    let localBlocks := numComputedTokens / connector.blockSize
    let remaining := request.blockHashes.drop localBlocks
    if remaining = [] then
      (0, connector)
    else
      let (matchedBlocks, store) := connector.store.longestPrefix
        (remaining.map fun blockHash => (connector.keySpace, blockHash))
      let connector := { connector with store := store }
      let matchedBlocks :=
        if matchedBlocks ≠ 0 ∧ request.blockHashes.length ≤ localBlocks + matchedBlocks then
          matchedBlocks - 1
        else matchedBlocks
      (matchedBlocks * connector.blockSize, connector)

omit [DecidableEq H] in
/-- Record which blocks this step fills from the store: those after the local
prefix, in the first group. -/
def updateStateAfterAlloc (request : Request H) (blocks : List (List BlockId))
    (numExternalTokens : ℕ) : SimSharedStoreConnector H :=
  if numExternalTokens = 0 then
    connector
  else
    let localBlocks := request.numComputedTokens / connector.blockSize
    let numBlocks := numExternalTokens / connector.blockSize
    { connector with
      pendingLoads := connector.pendingLoads.store request.requestId
        (((blocks.headD []).drop localBlocks).take numBlocks, numExternalTokens) }

omit [DecidableEq H] in
def buildConnectorMeta : KVConnectorMetadata × SimSharedStoreConnector H :=
  (⟨connector.pendingLoads⟩, { connector with pendingLoads := .empty })

/-- Write the computed blocks of a request to the store as it finishes. Its
blocks are free to release at once. -/
def requestFinished (request : Request H) : SimSharedStoreConnector H :=
  if connector.maySave = false ∨ request.blockHashes = [] ∨ connector.blockBytes = 0 then
    connector
  else
    let computedBlocks := min (request.numComputedTokens / connector.blockSize)
      request.blockHashes.length
    if computedBlocks = 0 then
      connector
    else
      { connector with
        store := connector.store.write
          ((request.blockHashes.take computedBlocks).map fun blockHash =>
            (connector.keySpace, blockHash)) }

end SimSharedStoreConnector

end Pvllm
