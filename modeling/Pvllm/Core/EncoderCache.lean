import Pvllm.Core.Request
import Pvllm.Library.Dict

/-!
The encoder output cache.

Entries are keyed by content hash and measured in embeddings. Freeing a
reference leaves the entry resident until the space is needed. A set of the
source is a list without duplicates here, in insertion order.
-/

namespace Pvllm

structure EncoderCacheManager where
  cacheSize : ℕ
  numFreeSlots : ℤ
  numFreeableSlots : ℤ
  cached : Dict String (List RequestId)
  freeable : List String
  requestCachedIds : Dict RequestId (List ℕ)
  freed : List String
  numQueries : ℕ
  numHits : ℕ
  entrySize : Dict String ℕ

namespace EncoderCacheManager

def init (cacheSize : ℕ) : Except PyError EncoderCacheManager :=
  if cacheSize < 1 then
    .error (.valueError (s!"encoder_cache_size must be positive, got {cacheSize}: a cache that "
      ++ "holds nothing would make every image recompute on every step of its own prefill"))
  else
    .ok {
      cacheSize := cacheSize
      numFreeSlots := cacheSize
      numFreeableSlots := cacheSize
      cached := .empty
      freeable := []
      requestCachedIds := .empty
      freed := []
      numQueries := 0
      numHits := 0
      entrySize := .empty }

variable (manager : EncoderCacheManager)

def hasCache (feature : MultiModalFeatureSpec) : Bool :=
  (manager.cached.find feature.identifier).isSome

def getCachedInputIds (requestId : RequestId) : List ℕ :=
  manager.requestCachedIds.findD requestId []

/-- The loop of `can_allocate`: evict unreferenced entries, oldest first, until
the item fits. The list is `freeable`. -/
def evictFor (numEmbeds : ℕ) (manager : EncoderCacheManager) :
    List String → Except PyError EncoderCacheManager
  | [] => .ok manager
  | evicted :: rest =>
    if (numEmbeds : ℤ) ≤ manager.numFreeSlots then
      .ok manager
    else if manager.cached.findD evicted [] ≠ [] then
      .error (.assertionError
        s!"encoder cache entry {evicted} was queued for eviction while referenced")
    else
      evictFor numEmbeds { manager with
        freeable := rest
        cached := manager.cached.delete evicted
        numFreeSlots := manager.numFreeSlots + manager.entrySize.findD evicted 0
        entrySize := manager.entrySize.delete evicted
        freed := manager.freed ++ [evicted] } rest

/-- Whether there is room, evicting unreferenced entries to make it. -/
def canAllocate (feature : MultiModalFeatureSpec) : Except PyError (Bool × EncoderCacheManager) :=
  if manager.cacheSize < feature.numEmbeds then
    .ok (false, manager)
  else if (feature.numEmbeds : ℤ) ≤ manager.numFreeSlots then
    .ok (true, manager)
  else if manager.numFreeableSlots < feature.numEmbeds then
    .ok (false, manager)
  else
    match manager.evictFor feature.numEmbeds manager.freeable with
    | .error e => .error e
    | .ok manager => .ok (decide ((feature.numEmbeds : ℤ) ≤ manager.numFreeSlots), manager)

def insertNew {α : Type} [DecidableEq α] (l : List α) (a : α) : List α :=
  if a ∈ l then l else l ++ [a]

theorem mem_insertNew {α : Type} [DecidableEq α] {l : List α} {a b : α} :
    b ∈ insertNew l a ↔ b ∈ l ∨ b = a := by
  unfold insertNew
  split
  · rename_i ha
    exact ⟨Or.inl, fun h => h.elim id fun heq => heq ▸ ha⟩
  · rw [List.mem_append, List.mem_singleton]

/-- Take a reference, and the space if this is the first holder. -/
def allocate (requestId : RequestId) (inputId : ℕ) (feature : MultiModalFeatureSpec) :
    EncoderCacheManager :=
  let mmHash := feature.identifier
  let manager := match manager.cached.find mmHash with
    | none => { manager with
        cached := manager.cached.store mmHash []
        entrySize := manager.entrySize.store mmHash feature.numEmbeds
        numFreeSlots := manager.numFreeSlots - feature.numEmbeds
        numFreeableSlots := manager.numFreeableSlots - feature.numEmbeds }
    | some [] => { manager with
        freeable := manager.freeable.erase mmHash
        numFreeableSlots := manager.numFreeableSlots - manager.entrySize.findD mmHash 0 }
    | some (_ :: _) => manager
  { manager with
    cached := manager.cached.store mmHash (insertNew (manager.cached.findD mmHash []) requestId)
    requestCachedIds := manager.requestCachedIds.store requestId
      (insertNew (manager.getCachedInputIds requestId) inputId) }

def recordLookup (hit : Bool) : EncoderCacheManager :=
  { manager with
    numQueries := manager.numQueries + 1
    numHits := manager.numHits + hit.toNat }

/-- Drop one reference. The entry stays resident until space is needed. -/
def freeEncoderInput (requestId : RequestId) (inputId : ℕ) (feature : MultiModalFeatureSpec) :
    EncoderCacheManager :=
  let mmHash := feature.identifier
  let held := match manager.requestCachedIds.find requestId with
    | none => manager.requestCachedIds
    | some held =>
      if held.erase inputId = [] then manager.requestCachedIds.delete requestId
      else manager.requestCachedIds.store requestId (held.erase inputId)
  let manager := { manager with requestCachedIds := held }
  match manager.cached.find mmHash with
  | none => manager
  | some references =>
    let manager := { manager with
      cached := manager.cached.store mmHash (references.erase requestId) }
    if references.erase requestId = [] ∧ mmHash ∉ manager.freeable then
      { manager with
        freeable := manager.freeable ++ [mmHash]
        numFreeableSlots := manager.numFreeableSlots + manager.entrySize.findD mmHash 0 }
    else
      manager

def free {H : Type} (request : Request H) : EncoderCacheManager :=
  (manager.getCachedInputIds request.requestId).foldl
    (fun manager inputId => match request.mmFeatures[inputId]? with
      | none => manager
      | some feature => manager.freeEncoderInput request.requestId inputId feature) manager

def getFreedMmHashes : List String × EncoderCacheManager :=
  (manager.freed, { manager with freed := [] })

end EncoderCacheManager

end Pvllm
