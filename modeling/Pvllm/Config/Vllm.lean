import Pvllm.Config.ModelDb
import Pvllm.Core.Sched.Scheduler

/-!
The configuration of an engine, and how its parts are made to agree.

Each part checks itself as it is built, so a part that exists is in order. The root
is built last: it gives the scheduler the context window of the model, and the
platform may then grow the block size until a page of attention covers a recurrent
state. What only sizes memory or times a step is left out.
-/

namespace Pvllm.Config

/-- `repr` of a text without quotes or escapes. -/
def quoted (text : String) : String := s!"'{text}'"

/-- `card or model`. -/
def cardName (card : Option String) (model : String) : String :=
  match card with
  | none => model
  | some name => if name = "" then model else name

/-! ### The model -/

structure ModelConfig where
  model : String
  modelCard : Option String
  hfConfig : ModelCard
  resolvedDtype : Dtype
  maxModelLen : ℕ
  maxModelLen_pos : 0 < maxModelLen

namespace ModelConfig

variable (config : ModelConfig)

/-- The layers of each stage of a pipeline: the stages that begin at `start`. -/
def stageRanges (start : ℕ) : List ℕ → List (ℕ × ℕ)
  | [] => []
  | size :: partitions => (start, start + size) :: stageRanges (start + size) partitions

def pipelineStageRanges (ppSize : ℕ) : List (ℕ × ℕ) :=
  let numLayers := config.hfConfig.numHiddenLayers
  stageRanges 0
    ((List.range' 2 (numLayers % ppSize)).foldl
      (fun partitions index => partitions.modify (ppSize - index) (· + 1))
      (List.replicate ppSize (numLayers / ppSize)))

def getNumKvHeads (tpSize : ℕ) : ℕ :=
  if config.hfConfig.useMla then 1 else max 1 (config.hfConfig.numKeyValueHeads / tpSize)

def getHeadSize : Except PyError ℕ :=
  if config.hfConfig.useMla then config.hfConfig.mlaHeadSize else .ok config.hfConfig.headDim

end ModelConfig

/-- The element type of a model: `auto` is the card's. -/
def resolveDtype (dtype : String) (card : ModelCard) : Except PyError Dtype :=
  if dtype = "auto" then
    .ok card.dtype
  else
    match Dtype.ofName dtype with
    | some resolved => .ok resolved
    | none => .error (.valueError
        (s!"unsupported dtype {quoted dtype}; expected 'auto' or one of ['bfloat16', 'float16', "
          ++ "'float32', 'float8_e4m3', 'float8_e5m2', 'int8']"))

/-- `ModelConfig.__post_init__`. -/
def ModelConfig.init (load : String → Except PyError ModelCard) (model : String)
    (modelCard : Option String) (dtype : String) (maxModelLen : Option ℤ) :
    Except PyError ModelConfig := do
  let hfConfig ← load (cardName modelCard model)
  let resolvedDtype ← resolveDtype dtype hfConfig
  let derivedMax := hfConfig.maxPositionEmbeddings
  let resolved := maxModelLen.getD derivedMax
  if (derivedMax : ℤ) < resolved then
    .error (.valueError
      (s!"max_model_len ({resolved}) is larger than the maximum the model supports "
        ++ s!"({derivedMax}). Lower max_model_len."))
  else if h : 0 < resolved then
    return {
      model := model
      modelCard := modelCard
      hfConfig := hfConfig
      resolvedDtype := resolvedDtype
      maxModelLen := resolved.toNat
      maxModelLen_pos := Int.lt_toNat.mpr h }
  else
    .error (.valueError s!"max_model_len must be positive, got {resolved}")

/-! ### The cache -/

inductive CacheDtype where
  | auto
  | fp8
  | float8E4m3
  | float8E5m2
deriving Repr, DecidableEq

/-- `None` means the dtype of the model. -/
def CacheDtype.resolved : CacheDtype → Option Dtype
  | .auto => none
  | .fp8 => some .float8E4m3
  | .float8E4m3 => some .float8E4m3
  | .float8E5m2 => some .float8E5m2

def CacheDtype.ofName (name : String) : Option CacheDtype :=
  if name = "auto" then some .auto
  else if name = "fp8" then some .fp8
  else if name = "float8_e4m3" then some .float8E4m3
  else if name = "float8_e5m2" then some .float8E5m2
  else none

structure CacheConfig where
  blockSize : ℕ
  mambaPageSizePadded : Option ℕ := none
  cacheDtype : CacheDtype
  slidingWindow : Option ℕ
  enablePrefixCaching : Bool
  blockSize_pos : 0 < blockSize

namespace CacheConfig

/-- `CacheConfig.__post_init__`. -/
def init (blockSize : ℤ) (cacheDtype : String) (slidingWindow : Option ℤ)
    (enablePrefixCaching : Bool) : Except PyError CacheConfig :=
  if h : 0 < blockSize then
    match CacheDtype.ofName cacheDtype with
    | none => .error (.valueError
        s!"unsupported cache_dtype {quoted cacheDtype}; expected 'auto' or an fp8 variant")
    | some dtype =>
      if slidingWindow.any (· < 1) then
        .error (.valueError s!"sliding_window must be positive, got {slidingWindow.getD 0}")
      else
        .ok {
          blockSize := blockSize.toNat
          cacheDtype := dtype
          slidingWindow := slidingWindow.map Int.toNat
          enablePrefixCaching := enablePrefixCaching
          blockSize_pos := Int.lt_toNat.mpr h }
  else
    .error (.valueError s!"block_size must be positive, got {blockSize}")

def resolvedCacheDtype (config : CacheConfig) : Option Dtype := config.cacheDtype.resolved

end CacheConfig

/-! ### The devices -/

structure ParallelConfig where
  pipelineParallelSize : ℕ
  tensorParallelSize : ℕ
  dataParallelSize : ℕ
  pipelineParallelSize_pos : 1 ≤ pipelineParallelSize
  tensorParallelSize_pos : 1 ≤ tensorParallelSize
  dataParallelSize_pos : 1 ≤ dataParallelSize

/-- `ParallelConfig.__post_init__`. -/
def ParallelConfig.init (pipelineParallelSize tensorParallelSize dataParallelSize : ℕ) :
    Except PyError ParallelConfig :=
  if hpp : 1 ≤ pipelineParallelSize then
    if htp : 1 ≤ tensorParallelSize then
      if hdp : 1 ≤ dataParallelSize then
        .ok ⟨pipelineParallelSize, tensorParallelSize, dataParallelSize, hpp, htp, hdp⟩
      else
        .error (.valueError s!"data_parallel_size must be at least 1, got {dataParallelSize}")
    else
      .error (.valueError s!"tensor_parallel_size must be at least 1, got {tensorParallelSize}")
  else
    .error (.valueError s!"pipeline_parallel_size must be at least 1, got {pipelineParallelSize}")

/-! ### The scheduler -/

def defaultMaxNumBatchedTokens : ℤ := 8192

/-- Smaller, because a step must then hold a whole prompt. -/
def defaultMaxNumBatchedTokensNoChunking : ℤ := 2048

def maxTokensPerMmItem : ℤ := 256

def policyOfName (name : String) : Option SchedulingPolicy :=
  if name = "fcfs" then some .fcfs
  else if name = "priority" then some .priority
  else none

/-- The scheduler's part as it is given, with the defaults of the class. -/
structure SchedulerConfigArgs where
  maxNumBatchedTokens : Option ℤ := none
  maxNumSeqs : ℤ := 1024
  maxModelLen : ℤ := 8192
  enableChunkedPrefill : Bool := true
  longPrefillTokenThreshold : ℤ := 0
  maxNumPartialPrefills : ℤ := 1
  policy : String := "fcfs"
  disableHybridKVCacheManager : Bool := false
  schedulerCls : Option String := none
  asyncScheduling : Bool := false

/-- The scheduler's part once it is built. -/
structure SchedulerConfig where
  maxNumBatchedTokens : ℕ
  maxNumSeqs : ℕ
  maxModelLen : ℕ
  enableChunkedPrefill : Bool
  longPrefillTokenThreshold : ℕ
  maxNumPartialPrefills : ℕ
  policy : SchedulingPolicy
  disableHybridKVCacheManager : Bool := false
  maxNumEncoderInputTokens : ℕ
  encoderCacheSize : ℕ
  maxNumBatchedTokens_pos : 1 ≤ maxNumBatchedTokens
  maxNumSeqs_pos : 1 ≤ maxNumSeqs
  maxNumPartialPrefills_pos : 1 ≤ maxNumPartialPrefills

namespace SchedulerConfigArgs

variable (args : SchedulerConfigArgs)

def budget : ℤ :=
  args.maxNumBatchedTokens.getD
    (if args.enableChunkedPrefill then defaultMaxNumBatchedTokens
    else defaultMaxNumBatchedTokensNoChunking)

/-- The budget of a step. Without chunked prefill it is raised to the length given
here, so that a prompt of that length fits in one. -/
def raisedBudget : ℤ :=
  if args.enableChunkedPrefill = false ∧ args.budget < args.maxModelLen then args.maxModelLen
  else args.budget

/-- The checks that need no more than the arguments, in order. -/
def checks : List (Bool × PyError) := [
  (args.budget < 1,
    .valueError s!"max_num_batched_tokens must be at least 1, got {args.budget}"),
  (args.maxNumSeqs < 1,
    .valueError s!"max_num_seqs must be at least 1, got {args.maxNumSeqs}"),
  ((policyOfName args.policy).isNone,
    .valueError (s!"unsupported scheduling policy {quoted args.policy}; expected 'fcfs' or "
      ++ "'priority'")),
  (args.maxNumPartialPrefills < 1,
    .valueError s!"max_num_partial_prefills must be at least 1, got {args.maxNumPartialPrefills}"),
  (args.longPrefillTokenThreshold < 0,
    .valueError (s!"long_prefill_token_threshold must be non-negative, got "
      ++ s!"{args.longPrefillTokenThreshold}")),
  (args.asyncScheduling, .notImplementedError
    ("async scheduling (vllm/v1/core/sched/async_scheduler.py) is deliberately not modeled. It "
      ++ "exists to hide the scheduler's CPU time behind the forward pass, and this engine "
      ++ "charges no CPU time at all -- the clock advances only for modeled device work. Porting "
      ++ "it would move the scheduling decisions without moving any latency, so a comparison of "
      ++ "the flag on and off would report that it buys nothing. Measure it on real vLLM; "
      ++ "everything downstream of the decisions it makes is faithful here.")),
  (args.schedulerCls.isSome, .notImplementedError
    ("a custom scheduler_cls is not supported; the scheduler is the component this project "
      ++ "exists to reproduce faithfully"))]

/-- What the arguments amount to. The encoder is sized from the budget before it is
raised, and floored at the largest single item. -/
def resolved : SchedulerConfig where
  maxNumBatchedTokens := max 1 args.raisedBudget.toNat
  maxNumSeqs := max 1 args.maxNumSeqs.toNat
  maxModelLen := args.maxModelLen.toNat
  enableChunkedPrefill := args.enableChunkedPrefill
  longPrefillTokenThreshold := args.longPrefillTokenThreshold.toNat
  maxNumPartialPrefills := max 1 args.maxNumPartialPrefills.toNat
  policy := (policyOfName args.policy).getD .fcfs
  disableHybridKVCacheManager := args.disableHybridKVCacheManager
  maxNumEncoderInputTokens := (max args.budget maxTokensPerMmItem).toNat
  encoderCacheSize := (max args.budget maxTokensPerMmItem).toNat
  maxNumBatchedTokens_pos := Nat.le_max_left ..
  maxNumSeqs_pos := Nat.le_max_left ..
  maxNumPartialPrefills_pos := Nat.le_max_left ..

/-- `SchedulerConfig.__post_init__`. -/
def postInit : Except PyError SchedulerConfig := do
  raiseFirst args.checks
  return args.resolved

end SchedulerConfigArgs

/-! ### The transfer of KV -/

inductive KVRole where
  | producer
  | consumer
  | both
deriving Repr, DecidableEq

def KVRole.ofName (name : String) : Option KVRole :=
  if name = "kv_producer" then some .producer
  else if name = "kv_consumer" then some .consumer
  else if name = "kv_both" then some .both
  else none

/-- Whether the one connector there is was asked for, and the role it plays. -/
structure KVTransferConfig where
  connected : Bool
  kvRole : Option KVRole

/-- `KVTransferConfig.__post_init__`. -/
def KVTransferConfig.init (kvConnector kvRole : Option String) :
    Except PyError KVTransferConfig := do
  let connectorName := quoted (kvConnector.getD "")
  let roleName := quoted (kvRole.getD "")
  raiseFirst [
    (kvConnector.any (· ≠ "SimSharedStoreConnector"), .notImplementedError
      (s!"KV connector {connectorName} is a real transport and is not available "
        ++ "here. pretending-vllm provides ['SimSharedStoreConnector'], which models an external "
        ++ "store with a configurable bandwidth and latency -- set those from a measurement of "
        ++ "yours and the scheduling around it is faithful.")),
    (kvRole.any fun role => (KVRole.ofName role).isNone, .valueError
      (s!"unknown kv_role {roleName}; expected kv_producer, kv_consumer, or "
        ++ "kv_both"))]
  return ⟨kvConnector.isSome, kvRole.bind KVRole.ofName⟩

/-! ### The root -/

/-- What the root is built from. The card and the seed are the simulator's. -/
structure VllmConfigArgs where
  modelConfig : ModelConfig
  cacheConfig : CacheConfig
  parallelConfig : ParallelConfig
  schedulerConfig : Option SchedulerConfig
  modelCard : Option String
  seed : ℕ
  maxLoras : Option ℕ
  specDisableByBatchSize : Option ℕ
  kvTransferConfig : Option KVTransferConfig
  useV2ModelRunner : Bool

structure VllmConfig where
  modelConfig : ModelConfig
  cacheConfig : CacheConfig
  parallelConfig : ParallelConfig
  schedulerConfig : SchedulerConfig
  modelCard : Option String
  seed : ℕ
  maxLoras : Option ℕ
  specDisableByBatchSize : Option ℕ
  kvTransferConfig : Option KVTransferConfig

def agreedScheduler (modelConfig : ModelConfig) :
    Option SchedulerConfig → Except PyError SchedulerConfig
  | none => { maxModelLen := modelConfig.maxModelLen : SchedulerConfigArgs }.postInit
  | some given =>
    .ok (if given.maxModelLen = modelConfig.maxModelLen then given
      else { given with maxModelLen := modelConfig.maxModelLen })

def attentionBytesPerToken (card : ModelCard) (tpSize : ℕ) (kvDtype : Dtype) : ℕ :=
  2 * max 1 (card.numKeyValueHeads / tpSize) * card.headDim * kvDtype.bytes

/-- Make an attention page big enough to hold a Mamba state. -/
def alignHybridBlockSize (load : String → Except PyError ModelCard) (args : VllmConfigArgs) :
    Except PyError CacheConfig :=
  match load (cardName args.modelCard args.modelConfig.model) with
  | .error (.keyError _) => .ok args.cacheConfig
  | .error (.fileNotFoundError _) => .ok args.cacheConfig
  | .error e => .error e
  | .ok card =>
    if card.isStateSpace = false then
      .ok args.cacheConfig
    else do
      let tpSize := args.parallelConfig.tensorParallelSize
      let stateBytes ← card.mambaStateBytesPerLayer tpSize
      let kvDtype := args.cacheConfig.resolvedCacheDtype.getD args.modelConfig.resolvedDtype
      let perToken := attentionBytesPerToken card tpSize kvDtype
      let alignment := max 16 args.cacheConfig.blockSize
      if alignment * perToken = 0 then
        .error (.zeroDivisionError "integer division or modulo by zero")
      else
        let pages := (stateBytes + alignment * perToken - 1) / (alignment * perToken)
        let blockSize := max args.cacheConfig.blockSize (alignment * pages)
        return {
          args.cacheConfig with
          blockSize := blockSize
          mambaPageSizePadded := some (blockSize * perToken)
          blockSize_pos := Nat.lt_of_lt_of_le args.cacheConfig.blockSize_pos
            (Nat.le_max_left ..) }

/-- `VllmConfig.__post_init__`. -/
def VllmConfig.init (load : String → Except PyError ModelCard) (args : VllmConfigArgs) :
    Except PyError VllmConfig := do
  let schedulerConfig ← agreedScheduler args.modelConfig args.schedulerConfig
  let cacheConfig ← alignHybridBlockSize load args
  raiseFirst [(!args.useV2ModelRunner, .notImplementedError
    ("PVLLM_USE_V2_MODEL_RUNNER=0 requests the legacy V1 model runner "
      ++ "(vllm/v1/worker/gpu_model_runner.py). pretending-vllm mirrors the V2 runner "
      ++ "(vllm/v1/worker/gpu/model_runner.py), which is upstream's default at the pinned "
      ++ "version. See D6 in UPSTREAM.md."))]
  return {
    modelConfig := args.modelConfig
    cacheConfig := cacheConfig
    parallelConfig := args.parallelConfig
    schedulerConfig := schedulerConfig
    modelCard := args.modelCard
    seed := args.seed
    maxLoras := args.maxLoras
    specDisableByBatchSize := args.specDisableByBatchSize
    kvTransferConfig := args.kvTransferConfig }

/-! ### What a configuration that was built says -/

/-- Without chunked prefill a prompt of the length given to the scheduler's part fits in
one step. -/
theorem SchedulerConfigArgs.postInit_fits {args : SchedulerConfigArgs} {config : SchedulerConfig}
    (h : args.postInit = .ok config) (hoff : config.enableChunkedPrefill = false) :
    config.maxModelLen ≤ config.maxNumBatchedTokens := by
  unfold postInit at h
  obtain ⟨_, -, h⟩ := except_bind_iff.mp h
  obtain rfl := Except.ok.inj h
  have hraised : args.maxModelLen ≤ args.raisedBudget := by
    unfold raisedBudget
    split
    · exact le_rfl
    · rename_i hnot
      exact not_lt.mp fun hlt => hnot ⟨hoff, hlt⟩
  show args.maxModelLen.toNat ≤ max 1 args.raisedBudget.toNat
  omega

theorem agreedScheduler_maxModelLen {modelConfig : ModelConfig} {given : Option SchedulerConfig}
    {config : SchedulerConfig} (h : agreedScheduler modelConfig given = .ok config) :
    config.maxModelLen = modelConfig.maxModelLen := by
  cases given with
  | none =>
      obtain ⟨_, -, h⟩ := except_bind_iff.mp h
      obtain rfl := Except.ok.inj h
      exact Int.toNat_natCast _
  | some given =>
      obtain rfl := Except.ok.inj h
      split
      · assumption
      · rfl

/-- The scheduler has the context window of the model. -/
theorem VllmConfig.init_maxModelLen {load : String → Except PyError ModelCard}
    {args : VllmConfigArgs} {config : VllmConfig} (h : VllmConfig.init load args = .ok config) :
    config.schedulerConfig.maxModelLen = config.modelConfig.maxModelLen := by
  unfold VllmConfig.init at h
  obtain ⟨_, hagreed, h⟩ := except_bind_iff.mp h
  obtain ⟨_, -, h⟩ := except_bind_iff.mp h
  obtain ⟨_, -, h⟩ := except_bind_iff.mp h
  obtain rfl := Except.ok.inj h
  exact agreedScheduler_maxModelLen hagreed

namespace VllmConfig

variable (config : VllmConfig)

def forScheduler : Pvllm.SchedulerConfig where
  maxNumScheduledTokens := config.schedulerConfig.maxNumBatchedTokens
  maxNumRunningReqs := config.schedulerConfig.maxNumSeqs
  maxModelLen := config.schedulerConfig.maxModelLen
  enableChunkedPrefill := config.schedulerConfig.enableChunkedPrefill
  longPrefillTokenThreshold := config.schedulerConfig.longPrefillTokenThreshold
  maxNumPartialPrefills := config.schedulerConfig.maxNumPartialPrefills
  policy := config.schedulerConfig.policy
  maxLoras := config.maxLoras
  specDisableByBatchSize := config.specDisableByBatchSize
  maxNumEncoderInputTokens := config.schedulerConfig.maxNumEncoderInputTokens
  encoderCacheSize := config.schedulerConfig.encoderCacheSize
  maxNumScheduledTokens_pos := config.schedulerConfig.maxNumBatchedTokens_pos
  maxNumRunningReqs_pos := config.schedulerConfig.maxNumSeqs_pos
  maxNumPartialPrefills_pos := config.schedulerConfig.maxNumPartialPrefills_pos

/-- The name whose card the worker simulates. -/
def resolvedCard : String := cardName config.modelCard config.modelConfig.model

end VllmConfig

end Pvllm.Config
