import Pvllm.Config.ModelDb
import Pvllm.Core.LayerSpecs
import Pvllm.Library.BinaryFloat
import Mathlib.Algebra.Order.BigOperators.Group.List

/-!
The memory of a device, and the blocks that fit in it.
-/

namespace Pvllm

/-! ### The ledger -/

/-- A size in `GiB` with two decimals, ties to even. -/
def gibText (bytes : ℤ) : String :=
  let hundredths := roundDiv (100 * bytes.natAbs) (1 <<< 30)
  let sign := if bytes < 0 then "-" else ""
  let decimals := if hundredths % 100 < 10 then s!"0{hundredths % 100}" else s!"{hundredths % 100}"
  sign ++ s!"{hundredths / 100}." ++ decimals ++ "GiB"

/-- Named memory pools on one device. -/
structure MemoryLedger where
  capacityBytes : ℕ
  pools : Dict String ℕ

namespace MemoryLedger

variable (ledger : MemoryLedger)

def init (capacityBytes : ℕ) : MemoryLedger := ⟨capacityBytes, .empty⟩

def allocatedBytes : ℕ := (ledger.pools.items.map Prod.snd).sum

def freeBytes : ℤ := ledger.capacityBytes - ledger.allocatedBytes

def poolTexts : String :=
  let pools := ledger.pools.items.mergeSort fun pool pool' => decide (pool.1 ≤ pool'.1)
  "\x7b" ++ ", ".intercalate (pools.map fun pool => s!"'{pool.1}': '" ++ gibText pool.2 ++ "'")
    ++ "\x7d"

/-- Add to a pool what still fits. -/
def allocate (pool : String) (numBytes : ℤ) : Except PyError MemoryLedger :=
  if numBytes < 0 then
    .error (.valueError s!"cannot allocate {numBytes} bytes to pool '{pool}'")
  else if ledger.freeBytes < numBytes then
    .error (.runtimeError ("Simulated device out of memory. Tried to allocate "
      ++ gibText numBytes ++ s!" for '{pool}', but only " ++ gibText ledger.freeBytes ++ " of "
      ++ gibText ledger.capacityBytes ++ " is free. Pools: " ++ ledger.poolTexts))
  else
    .ok { ledger with
      pools := ledger.pools.store pool (ledger.pools.findD pool 0 + numBytes.toNat) }

def free (pool : String) : MemoryLedger := { ledger with pools := ledger.pools.delete pool }

def get (pool : String) : ℕ := ledger.pools.findD pool 0

end MemoryLedger

/-! ### What a model takes -/

def activationHiddenMultiplier : ℕ := 6

def activationIntermediateMultiplier : ℕ := 2

def defaultNonTorchOverheadBytes : ℕ := 1 <<< 30

/-- Parameter bytes resident on one device. Under expert parallelism a device owns
whole experts, and the one that owns the most is the one that counts. -/
def computeWeightBytes (model : ModelCard) (dtype : Dtype) (tpSize : ℕ) (epSize : Option ℕ) : ℤ :=
  let dtypeBytes : ℤ := dtype.bytes
  let embedding : ℤ := model.embeddingParameters
  let experts : ℤ := model.numHiddenLayers * model.expertParametersPerLayer
  let dense : ℤ := model.numParameters - embedding - experts
  let localExperts : ℤ :=
    match epSize with
    | none => experts / tpSize
    | some epSize =>
      let expertDivisor := max 1 epSize
      if model.isMoe = false then experts / expertDivisor
      else
        let perRank := ceilDiv model.numExperts expertDivisor
        let oneExpert := model.expertParametersPerLayer / max 1 model.numExperts
        model.numHiddenLayers * perRank * oneExpert
  embedding * dtypeBytes + dense * dtypeBytes / tpSize + localExperts * dtypeBytes

def computeActivationPeakBytes (model : ModelCard) (dtype : Dtype)
    (maxNumBatchedTokens maxNumSeqs tpSize : ℕ) : ℕ :=
  let intermediateLocal := model.intermediateSize / tpSize
  let perToken := (model.hiddenSize * activationHiddenMultiplier
    + intermediateLocal * activationIntermediateMultiplier) * dtype.bytes
  let activations := maxNumBatchedTokens * perToken
  let logits := maxNumSeqs * model.vocabSize * 4
  activations + logits

def computeLoraBytes (model : ModelCard) (dtype : Dtype)
    (maxLoras maxLoraRank numTargetModules tpSize ppSize : ℕ) : ℕ :=
  if maxLoras < 1 ∨ maxLoraRank < 1 then 0
  else
    let sharded := maxLoraRank * model.hiddenSize / tpSize
    let replicated := maxLoraRank * model.hiddenSize
    let perProjection := sharded + replicated
    let layersLocal := max 1 (ceilDiv model.numHiddenLayers ppSize)
    let perAdapter := perProjection * numTargetModules * layersLocal
    perAdapter * dtype.bytes * maxLoras

/-! ### What one request takes -/

def windowedBlocksForOneRequest (slidingWindow blockSize maxModelLen maxInFlightTokens : ℕ) : ℕ :=
  let peakTokens := min (slidingWindow - 1 + maxInFlightTokens) maxModelLen
  ceilDiv peakTokens blockSize + 1

def stateBlocksForOneRequest (blockSize maxModelLen maxInFlightTokens : ℕ) : ℕ :=
  let peak := 1 + ceilDiv (min maxInFlightTokens maxModelLen) blockSize
  min peak (ceilDiv maxModelLen blockSize)

/-! ### The profile -/

structure DeviceCard where
  memoryBytes : ℕ

/-- The resolved memory picture for one device. The concurrency is a quotient that the code
rounds to a float. -/
structure MemoryProfile where
  capacityBytes : ℕ
  usableBytes : ℤ
  weightBytes : ℤ
  activationPeakBytes : ℕ
  nonTorchOverheadBytes : ℕ
  graphBytes : ℕ
  kvPoolBytes : ℤ
  kvBytesPerToken : ℕ
  kvBytesPerBlock : ℕ
  numGpuBlocks : ℤ
  maxConcurrency : ℚ

/-- The arguments of `compute_memory_profile`. The utilization comes with the text
it has in an error. -/
structure MemoryProfileArgs where
  dtype : Dtype
  kvCacheDtype : Option Dtype
  blockSize : ℕ
  gpuMemoryUtilization : Binary64
  gpuMemoryUtilizationText : String
  maxModelLen : ℕ
  maxNumBatchedTokens : ℕ
  maxNumSeqs : ℕ
  tpSize : ℕ := 1
  ppSize : ℕ := 1
  nonTorchOverheadBytes : ℕ := defaultNonTorchOverheadBytes
  graphBytes : ℕ := 0
  numGpuBlocksOverride : Option ℤ := none
  loraBytes : ℕ := 0
  slidingWindow : Option ℕ := none
  kvCacheGroups : List KVCacheGroup := []
  epSize : ℕ := 1

namespace MemoryProfileArgs

variable (args : MemoryProfileArgs)

def layersPerGroup (groups : List KVCacheGroup) : ℕ :=
  (groups.map fun group => group.layerNames.length).max?.getD 0

/-- Bytes one block takes: a page in each of a group's layers. -/
def kvBytesPerBlock (kvBytesPerToken : ℕ) : Except PyError ℕ :=
  match args.kvCacheGroups with
  | [] => .ok (args.blockSize * kvBytesPerToken)
  | first :: _ => do
    let page ← first.kvCacheSpec.pageSizeBytes
    pure (page * layersPerGroup args.kvCacheGroups)

/-- The blocks of one group among several, and the blocks that are taken off the pool
on its account. -/
def groupNeed (group : KVCacheGroup) : ℕ × ℕ :=
  let whole := (args.maxModelLen + args.blockSize - 1) / args.blockSize
  match group.kvCacheSpec.window with
  | some window =>
    if window < args.maxModelLen then
      (windowedBlocksForOneRequest window args.blockSize args.maxModelLen
        args.maxNumBatchedTokens, 1)
    else (whole, 0)
  | none =>
    if group.kvCacheSpec.className = "MambaSpec" then
      (stateBlocksForOneRequest args.blockSize args.maxModelLen args.maxNumBatchedTokens, 1)
    else (whole, 0)

/-- The tokens of one request that a single window bounds. -/
def tokensForOneRequest : ℕ := min args.maxModelLen (args.slidingWindow.getD args.maxModelLen)

/-- The blocks one request takes, and the blocks that cannot be handed out. -/
def requestNeed : ℕ × ℕ :=
  if 1 < args.kvCacheGroups.length then
    args.kvCacheGroups.foldl (fun need group =>
      (need.1 + (args.groupNeed group).1, max need.2 (args.groupNeed group).2)) (0, 0)
  else
    match args.slidingWindow with
    | some window =>
      if window < args.maxModelLen then
        (windowedBlocksForOneRequest window args.blockSize args.maxModelLen
          args.maxNumBatchedTokens, 1)
      else ((args.tokensForOneRequest + args.blockSize - 1) / args.blockSize, 0)
    | none => ((args.tokensForOneRequest + args.blockSize - 1) / args.blockSize, 0)

end MemoryProfileArgs

/-- `num_gpu_blocks`, as it was given or as many as fit. -/
def numGpuBlocksFor (override : Option ℤ) (kvPool : ℤ) (kvBytesPerBlock : ℕ) : Except PyError ℤ :=
  match override with
  | some numGpuBlocks => .ok numGpuBlocks
  | none =>
    if kvBytesPerBlock = 0 then
      .error (.zeroDivisionError "integer division or modulo by zero")
    else .ok (kvPool / kvBytesPerBlock)

def toFloat (n : ℕ) : Except PyError Binary64 :=
  let x : Binary64 := .ofNat n
  if 2 ^ 1024 ≤ x.trunc then .error (.overflowError "int too large to convert to float")
  else .ok x

/-- `int(capacity * gpu_memory_utilization)`: the product is a float. -/
def usableBytes (capacity : ℕ) (gpuMemoryUtilization : Binary64) : Except PyError ℕ := do
  let capacity ← toFloat capacity
  return (capacity.mul gpuMemoryUtilization).trunc

/-- The float next to `0.3` is below it, and its product with 80 GiB is rounded up. -/
example : okAnd (usableBytes 85899345920 ⟨5404319552844595, -54, by norm_num⟩)
    (fun usable => decide (usable = 25769803776)) = true := by
  decide +kernel

def computeMemoryProfile (model : ModelCard) (device : DeviceCard) (args : MemoryProfileArgs) :
    Except PyError MemoryProfile := do
  let capacity := device.memoryBytes
  let usable ← usableBytes capacity args.gpuMemoryUtilization
  let layersLocal := ceilDiv model.numHiddenLayers args.ppSize
  let weightBytes :=
    computeWeightBytes model args.dtype args.tpSize
      (if 1 < args.epSize then some args.epSize else none)
      * layersLocal / (max 1 model.numHiddenLayers : ℕ)
  let activationPeak := computeActivationPeakBytes model args.dtype args.maxNumBatchedTokens
    args.maxNumSeqs args.tpSize
  let kvBytesOfModel ← model.kvBytesPerToken args.kvCacheDtype args.tpSize
  let kvBytesPerToken := kvBytesOfModel / args.ppSize
  let kvBytesPerBlock ← args.kvBytesPerBlock kvBytesPerToken
  let kvPool := usable - weightBytes - activationPeak - args.nonTorchOverheadBytes
    - args.graphBytes - args.loraBytes
  raiseFirst [(kvPool ≤ 0, .runtimeError
    ("No memory left for the KV cache. The model's weights (" ++ gibText weightBytes
      ++ "), modeled activation peak (" ++ gibText activationPeak ++ "), LoRA adapters ("
      ++ gibText args.loraBytes ++ "), and non-torch overhead ("
      ++ gibText args.nonTorchOverheadBytes ++ ") already exceed the " ++ gibText usable
      ++ " budget on a " ++ gibText capacity ++ " device at gpu_memory_utilization="
      ++ args.gpuMemoryUtilizationText ++ ".\nTry: raise gpu_memory_utilization, lower "
      ++ "max_num_batched_tokens, max_num_seqs, or max_loras, use a smaller model card, or pick a "
      ++ "larger device card."))]
  let numGpuBlocks ← numGpuBlocksFor args.numGpuBlocksOverride kvPool kvBytesPerBlock
  let (blocksForOneRequest, usableBlocksAdjustment) := args.requestNeed
  let allocatable := numGpuBlocks - usableBlocksAdjustment
  raiseFirst [(allocatable < blocksForOneRequest, .runtimeError
    (s!"The KV cache holds {numGpuBlocks} blocks ({allocatable} allocatable), but a single "
      ++ s!"request at max_model_len={args.maxModelLen} (window {args.tokensForOneRequest}) "
      ++ s!"needs {blocksForOneRequest} (block_size={args.blockSize}). No request could ever be "
      ++ "served.\nTry: lower max_model_len, raise gpu_memory_utilization, or pick a larger "
      ++ "device card."))]
  return {
    capacityBytes := capacity
    usableBytes := usable
    weightBytes := weightBytes
    activationPeakBytes := activationPeak
    nonTorchOverheadBytes := args.nonTorchOverheadBytes
    graphBytes := args.graphBytes
    kvPoolBytes := kvPool
    kvBytesPerToken := kvBytesPerToken
    kvBytesPerBlock := kvBytesPerBlock
    numGpuBlocks := numGpuBlocks
    maxConcurrency := allocatable / (max 1 blocksForOneRequest : ℕ) }

def MemoryLedger.applyMemoryProfile (ledger : MemoryLedger) (profile : MemoryProfile) :
    Except PyError MemoryLedger := do
  let ledger ← ledger.allocate "weights" profile.weightBytes
  let ledger ← ledger.allocate "activation_peak" profile.activationPeakBytes
  let ledger ← ledger.allocate "non_torch_overhead" profile.nonTorchOverheadBytes
  let ledger ←
    if profile.graphBytes = 0 then .ok ledger else ledger.allocate "graph" profile.graphBytes
  ledger.allocate "kv_cache" (profile.numGpuBlocks * profile.kvBytesPerBlock)

/-! ### The books -/

/-- As long as its size is a float, the budget of a device is within it. -/
theorem usableBytes_le {capacity usable : ℕ} {gpuMemoryUtilization : Binary64}
    (hexact : capacity ≤ 2 ^ 53) (hle : gpuMemoryUtilization.value ≤ 1)
    (h : usableBytes capacity gpuMemoryUtilization = .ok usable) : usable ≤ capacity := by
  unfold usableBytes at h
  obtain ⟨x, hx, h⟩ := except_bind_iff.mp h
  unfold toFloat at hx
  dsimp only at hx
  split at hx
  · cases hx
  · obtain rfl := Except.ok.inj hx
    obtain rfl := Except.ok.inj h
    exact BinaryFloat.trunc_mul_ofNat_le hexact hle

namespace MemoryLedger

variable {ledger ledger' : MemoryLedger} {pool : String} {numBytes : ℤ}

/-- A ledger whose pools fit in its device. -/
def Fits (ledger : MemoryLedger) : Prop := ledger.allocatedBytes ≤ ledger.capacityBytes

theorem fits_init (capacityBytes : ℕ) : (init capacityBytes).Fits := Nat.zero_le _

theorem freeBytes_init (capacityBytes : ℕ) : (init capacityBytes).freeBytes = capacityBytes :=
  sub_zero _

theorem get_init (capacityBytes : ℕ) (pool : String) : (init capacityBytes).get pool = 0 := rfl

theorem allocatedBytes_store (ledger : MemoryLedger) (pool : String) (numBytes : ℕ) :
    ((ledger.pools.store pool (ledger.pools.findD pool 0 + numBytes)).items.map Prod.snd).sum =
      ledger.allocatedBytes + numBytes := by
  have hstore := ledger.pools.total_store pool (ledger.pools.findD pool 0 + numBytes) id
  have hwas : ((ledger.pools.find pool).map id).getD 0 = ledger.pools.findD pool 0 := by
    rw [Option.map_id, Dict.findD]
    rfl
  rw [hwas] at hstore
  change ((ledger.pools.store pool _).items.map Prod.snd).sum + _ =
    ledger.allocatedBytes + (_ + numBytes) at hstore
  omega

/-- An allocation goes through exactly where it is no debt and still fits, and takes just
that from what is free. -/
theorem allocate_eq_ok_iff : ledger.allocate pool numBytes = .ok ledger' ↔
    0 ≤ numBytes ∧ numBytes ≤ ledger.freeBytes ∧ ledger' = { ledger with
      pools := ledger.pools.store pool (ledger.pools.findD pool 0 + numBytes.toNat) } := by
  unfold allocate
  split
  · exact ⟨fun h => (by cases h), fun h => absurd h.1 (by omega)⟩
  · split
    · exact ⟨fun h => (by cases h), fun h => absurd h.2.1 (by omega)⟩
    · refine ⟨fun h => ⟨by omega, by omega, (Except.ok.inj h).symm⟩, fun h => ?_⟩
      rw [h.2.2]

theorem freeBytes_allocate (h : ledger.allocate pool numBytes = .ok ledger') :
    ledger'.freeBytes = ledger.freeBytes - numBytes ∧
      ledger'.capacityBytes = ledger.capacityBytes := by
  obtain ⟨hpos, -, rfl⟩ := allocate_eq_ok_iff.mp h
  refine ⟨?_, rfl⟩
  have hstore := allocatedBytes_store ledger pool numBytes.toNat
  show (ledger.capacityBytes : ℤ) - ((ledger.pools.store pool _).items.map Prod.snd).sum = _
  rw [hstore, freeBytes]
  push_cast
  omega

theorem get_allocate (h : ledger.allocate pool numBytes = .ok ledger') (pool' : String) :
    (ledger'.get pool' : ℤ) = ledger.get pool' + if pool' = pool then numBytes else 0 := by
  obtain ⟨hpos, -, rfl⟩ := allocate_eq_ok_iff.mp h
  unfold get Dict.findD
  dsimp only
  split
  · rename_i heq
    subst heq
    rw [Dict.find_store_self, Option.getD_some]
    push_cast
    omega
  · rename_i hne
    rw [Dict.find_store_of_ne _ _ hne, add_zero]

theorem Fits.allocate (h : ledger.allocate pool numBytes = .ok ledger') : ledger'.Fits := by
  obtain ⟨hfree, -⟩ := freeBytes_allocate h
  obtain ⟨-, hle, -⟩ := allocate_eq_ok_iff.mp h
  unfold freeBytes at hfree hle
  unfold Fits
  omega

def allocateAll (ledger : MemoryLedger) (pools : List (String × ℤ)) : Except PyError MemoryLedger :=
  pools.foldlM (fun ledger pool => ledger.allocate pool.1 pool.2) ledger

def claimedFor (pools : List (String × ℤ)) (pool : String) : ℤ :=
  ((pools.filter fun claim => claim.1 = pool).map Prod.snd).sum

/-- Claims go through together exactly where none is a debt and all of them fit. -/
theorem allocateAll_ok_iff {pools : List (String × ℤ)} (hfits : ledger.Fits) :
    (∃ ledger', ledger.allocateAll pools = .ok ledger') ↔
      (∀ claim ∈ pools, 0 ≤ claim.2) ∧ (pools.map Prod.snd).sum ≤ ledger.freeBytes := by
  unfold allocateAll
  induction pools generalizing ledger with
  | nil =>
      unfold Fits at hfits
      unfold freeBytes
      simp only [List.foldlM_nil, List.not_mem_nil, false_implies, implies_true, List.map_nil,
        List.sum_nil, true_and]
      exact ⟨fun _ => by omega, fun _ => ⟨ledger, rfl⟩⟩
  | cons claim pools ih =>
      rw [List.foldlM_cons, List.forall_mem_cons, List.map_cons, List.sum_cons]
      constructor
      · rintro ⟨ledger', h⟩
        obtain ⟨next, hnext, h⟩ := except_bind_iff.mp h
        obtain ⟨hfree, -⟩ := freeBytes_allocate hnext
        obtain ⟨hrest, hsum⟩ := (ih (Fits.allocate hnext)).mp ⟨ledger', h⟩
        exact ⟨⟨(allocate_eq_ok_iff.mp hnext).1, hrest⟩, by omega⟩
      · rintro ⟨⟨hpos, hrest⟩, hsum⟩
        have hrestsum : 0 ≤ (pools.map Prod.snd).sum := List.sum_nonneg fun numBytes hmem => by
          obtain ⟨claim', hclaim', rfl⟩ := List.mem_map.mp hmem
          exact hrest claim' hclaim'
        obtain ⟨next, hnext⟩ : ∃ next, ledger.allocate claim.1 claim.2 = .ok next :=
          ⟨_, allocate_eq_ok_iff.mpr ⟨hpos, by omega, rfl⟩⟩
        obtain ⟨hfree, -⟩ := freeBytes_allocate hnext
        obtain ⟨ledger', h⟩ := (ih (Fits.allocate hnext)).mpr ⟨hrest, by omega⟩
        exact ⟨ledger', except_bind_iff.mpr ⟨_, hnext, h⟩⟩

/-- They then take their sum from what is free, and add to each pool what is claimed for it. -/
theorem allocateAll_books {pools : List (String × ℤ)} (h : ledger.allocateAll pools = .ok ledger') :
    ledger'.freeBytes = ledger.freeBytes - (pools.map Prod.snd).sum ∧
      ∀ pool, (ledger'.get pool : ℤ) = ledger.get pool + claimedFor pools pool := by
  unfold allocateAll at h
  induction pools generalizing ledger with
  | nil =>
      obtain rfl := Except.ok.inj h
      simp [claimedFor]
  | cons claim pools ih =>
      rw [List.foldlM_cons] at h
      obtain ⟨next, hnext, h⟩ := except_bind_iff.mp h
      obtain ⟨hfree, -⟩ := freeBytes_allocate hnext
      obtain ⟨hrest, hget⟩ := ih h
      refine ⟨by rw [List.map_cons, List.sum_cons]; omega, fun pool => ?_⟩
      rw [hget, get_allocate hnext]
      unfold claimedFor
      rw [List.filter_cons]
      by_cases heq : claim.1 = pool
      · rw [if_pos heq.symm, if_pos (decide_eq_true heq), List.map_cons, List.sum_cons]
        omega
      · rw [if_neg (Ne.symm heq), if_neg (by simpa using heq)]
        omega

end MemoryLedger

def MemoryProfile.pools (profile : MemoryProfile) : List (String × ℤ) :=
  [("weights", profile.weightBytes), ("activation_peak", (profile.activationPeakBytes : ℤ)),
      ("non_torch_overhead", (profile.nonTorchOverheadBytes : ℤ))] ++
    (if profile.graphBytes = 0 then [] else [("graph", (profile.graphBytes : ℤ))]) ++
      [("kv_cache", profile.numGpuBlocks * profile.kvBytesPerBlock)]

def MemoryProfile.claimedBytes (profile : MemoryProfile) : ℤ :=
  profile.weightBytes + profile.activationPeakBytes + profile.nonTorchOverheadBytes +
    profile.graphBytes + profile.numGpuBlocks * profile.kvBytesPerBlock

theorem MemoryProfile.sum_pools (profile : MemoryProfile) :
    (profile.pools.map Prod.snd).sum = profile.claimedBytes := by
  unfold pools claimedBytes
  split
  · rename_i hzero
    simp only [List.append_nil, List.cons_append, List.nil_append, List.map_cons, List.map_nil,
      List.sum_cons, List.sum_nil, hzero]
    ring
  · simp only [List.cons_append, List.nil_append, List.map_cons, List.map_nil,
      List.sum_cons, List.sum_nil]
    ring

theorem MemoryProfile.pools_nonneg (profile : MemoryProfile) (hweights : 0 ≤ profile.weightBytes)
    (hblocks : 0 ≤ profile.numGpuBlocks) : ∀ claim ∈ profile.pools, 0 ≤ claim.2 := by
  have hcache : 0 ≤ profile.numGpuBlocks * (profile.kvBytesPerBlock : ℤ) :=
    mul_nonneg hblocks (Int.natCast_nonneg _)
  unfold pools
  split <;> simp [hweights, hcache]

theorem MemoryLedger.applyMemoryProfile_eq (ledger : MemoryLedger) (profile : MemoryProfile) :
    ledger.applyMemoryProfile profile = ledger.allocateAll profile.pools := by
  unfold applyMemoryProfile allocateAll MemoryProfile.pools
  split
  · simp only [List.append_nil, List.cons_append, List.nil_append, List.foldlM_cons,
      List.foldlM_nil, bind_pure]
    rfl
  · simp only [List.cons_append, List.nil_append, List.foldlM_cons, List.foldlM_nil, bind_pure]

/-- A card whose parameters are derived has no fewer than its embedding and its experts. -/
theorem computeWeightBytes_nonneg {model : ModelCard}
    (hderived : model.numParametersOverride = none) (dtype : Dtype) (tpSize : ℕ)
    (epSize : Option ℕ) :
    0 ≤ computeWeightBytes model dtype tpSize epSize := by
  have hnum : model.embeddingParameters +
      model.numHiddenLayers * model.expertParametersPerLayer ≤ model.numParameters := by
    unfold ModelCard.numParameters
    rw [hderived, Option.getD_none]
    unfold ModelCard.derivedParameters
    have hexperts : model.expertParametersPerLayer ≤
        model.attentionParametersPerLayer + model.mlpParametersPerLayer + 2 * model.hiddenSize := by
      unfold ModelCard.expertParametersPerLayer
      omega
    have hlayers := Nat.mul_le_mul_left model.numHiddenLayers hexperts
    dsimp only
    omega
  have hdense : (0 : ℤ) ≤ (model.numParameters : ℤ) - model.embeddingParameters -
      model.numHiddenLayers * model.expertParametersPerLayer := by
    have := Int.ofNat_le.mpr hnum
    push_cast at this
    omega
  unfold computeWeightBytes
  dsimp only
  refine add_nonneg (add_nonneg (by positivity) ?_) (mul_nonneg ?_ (by positivity))
  · exact Int.ediv_nonneg (mul_nonneg hdense (by positivity)) (by positivity)
  · split
    · positivity
    · split
      · positivity
      · positivity

end Pvllm
