import Pvllm.Core.Sched.Output
import Pvllm.Core.Sched.RequestQueue
import Pvllm.Core.EncoderCache

/-!
The scheduler.

A request is known by its id: the objects live in the table `request`, and the
queues hold ids. `schedule` is the machine of its three loops. A `StepState`
holds the local variables of a call; `Phase` says which loop it is in, with a
phase of its own for the point right before each `allocate_slots`, and `advance`
is the code from one such point to the next. `finish` is what follows the loops.
-/

namespace Pvllm

/-- The resolved configuration, with what `SchedulerConfig` checks of it. -/
structure SchedulerConfig where
  maxNumScheduledTokens : ℕ
  maxNumRunningReqs : ℕ
  maxModelLen : ℕ
  enableChunkedPrefill : Bool
  longPrefillTokenThreshold : ℕ
  maxNumPartialPrefills : ℕ
  policy : SchedulingPolicy
  maxLoras : Option ℕ
  specDisableByBatchSize : Option ℕ
  maxNumEncoderInputTokens : ℕ
  encoderCacheSize : ℕ
  maxNumScheduledTokens_pos : 1 ≤ maxNumScheduledTokens
  maxNumRunningReqs_pos : 1 ≤ maxNumRunningReqs
  maxNumPartialPrefills_pos : 1 ≤ maxNumPartialPrefills

structure Scheduler (H : Type) where
  config : SchedulerConfig
  kvCacheManager : KVCacheManager H
  request : RequestId → Request H
  requests : List RequestId
  running : List RequestId
  waiting : RequestQueue
  skippedWaiting : RequestQueue
  finishedReqIds : List RequestId
  grammarCompileErrorReqs : List RequestId
  encoderCacheManager : EncoderCacheManager
  connector : Option (SimSharedStoreConnector H)
  pendingScheduled : List RequestId
  stepIndex : ℕ
  numPreemptionsTotal : ℕ
  numDraftTokensTotal : ℕ
  numAcceptedTokensTotal : ℕ

/-- The entry of an id no request has been added under. -/
def Request.vacant {H : Type} (requestId : RequestId) : Request H where
  requestId := requestId
  clientIndex := 0
  priority := 0
  arrivalTime := 0
  samplingParams := none
  usePooling := true
  loraRequest := none
  cacheSalt := none
  mmFeatures := []
  structuredOutputRequest := none
  status := .finishedAborted
  stopReason := none
  maxTokens := 0
  promptTokenIds := []
  outputTokenIds := []
  numComputedTokens := 0
  specTokenIds := []
  isPrefillChunk := false
  numPreemptions := 0
  numCachedTokens := 0
  blockHashes := []
  blockHasher := none

/-! ### Field updates -/

namespace Request

variable {H : Type} (request : Request H)

def withStatus (status : RequestStatus) : Request H := { request with status := status }

def withSpecTokenIds (specTokenIds : List TokenId) : Request H :=
  { request with specTokenIds := specTokenIds }

def withNumComputedTokens (n : ℕ) : Request H := { request with numComputedTokens := n }

/-- What preemption resets: everything computed, and the drafts. -/
def preempted : Request H :=
  { request with
    status := .preempted
    numComputedTokens := 0
    numPreemptions := request.numPreemptions + 1
    specTokenIds := [] }

def admitted (numComputedTokens numCachedTokens : ℕ) : Request H :=
  { request with
    status := .running
    numComputedTokens := numComputedTokens
    numCachedTokens := numCachedTokens }

/-- What a step that ran `n` tokens advances. -/
def advanced (n : ℕ) : Request H :=
  { request with
    numComputedTokens := request.numComputedTokens + n
    isPrefillChunk := decide (request.numComputedTokens + n < request.numTokens) }

end Request

namespace Scheduler

variable {H : Type} [DecidableEq H]

omit [DecidableEq H] in
def init (config : SchedulerConfig) (kvCacheConfig : KVCacheConfig) (enableCaching : Bool)
    (hashFn : HashInput H → H) (seed : ℕ) (connector : Option (SimSharedStoreConnector H)) :
    Except PyError (Scheduler H) :=
  match KVCacheManager.init kvCacheConfig config.maxModelLen enableCaching false hashFn seed with
  | .error e => .error e
  | .ok kvCacheManager =>
    match EncoderCacheManager.init config.encoderCacheSize with
    | .error e => .error e
    | .ok encoderCacheManager =>
      .ok {
        config := config
        kvCacheManager := kvCacheManager
        request := Request.vacant
        requests := []
        running := []
        waiting := .create config.policy
        skippedWaiting := .create config.policy
        finishedReqIds := []
        grammarCompileErrorReqs := []
        encoderCacheManager := encoderCacheManager
        connector := connector
        pendingScheduled := []
        stepIndex := 0
        numPreemptionsTotal := 0
        numDraftTokensTotal := 0
        numAcceptedTokensTotal := 0 }

variable (s : Scheduler H)

omit [DecidableEq H] in
def modifyRequest (r : RequestId) (f : Request H → Request H) : Scheduler H :=
  { s with request := Function.update s.request r (f (s.request r)) }

omit [DecidableEq H] in
def addRequest (request : Request H) : Scheduler H :=
  let request := match s.kvCacheManager.blockHasher with
    | some hasher => request.attachBlockHasher hasher
    | none => request
  let table := Function.update s.request request.requestId request
  { s with
    request := table
    waiting := s.waiting.addRequest table request.requestId
    requests := EncoderCacheManager.insertNew s.requests request.requestId }

omit [DecidableEq H] in
/-- Running requests whose prompt is not yet fully computed. -/
def numPartialPrefills : ℕ :=
  (s.running.filter fun r => (s.request r).isPrefillChunk).length

/-! ### Encoder inputs -/

omit [DecidableEq H] in
/-- The loop of `_schedule_encoder` over the items from an index on. Returns the
tokens to schedule, the inputs to encode, what is left of the budget, and the
cache. -/
def scheduleEncoderLoop (request : Request H) (numNewTokens : ℕ) (maxNumEncoderInputTokens : ℕ) :
    List (ℕ × MultiModalFeatureSpec) → List ℕ → ℕ → EncoderCacheManager →
    Except PyError (ℕ × List ℕ × ℕ × EncoderCacheManager)
  | [], scheduled, budget, cache => .ok (numNewTokens, scheduled, budget, cache)
  | (inputId, feature) :: rest, scheduled, budget, cache =>
    let start := request.numComputedTokens
    let stop := start + numNewTokens
    if stop ≤ feature.position ∨ feature.position + feature.length ≤ start then
      scheduleEncoderLoop request numNewTokens maxNumEncoderInputTokens rest scheduled budget cache
    else if inputId ∈ cache.getCachedInputIds request.requestId then
      scheduleEncoderLoop request numNewTokens maxNumEncoderInputTokens rest scheduled budget cache
    else
      let hit := cache.hasCache feature
      let cache := cache.recordLookup hit
      if hit then
        scheduleEncoderLoop request numNewTokens maxNumEncoderInputTokens rest scheduled budget
          (cache.allocate request.requestId inputId feature)
      else if maxNumEncoderInputTokens < feature.numEmbeds ∨
          cache.cacheSize < feature.numEmbeds then
        .error (.valueError (s!"multimodal item {inputId} of request {request.requestId} "
          ++ s!"needs {feature.numEmbeds} encoder embeddings, but the encoder "
          ++ s!"budget is {maxNumEncoderInputTokens} and the cache "
          ++ s!"holds {cache.cacheSize}. It could never be scheduled."))
      else if budget < feature.numEmbeds then
        .ok (feature.position - start, scheduled, budget, cache)
      else
        match cache.canAllocate feature with
        | .error e => .error e
        | .ok (false, cache) => .ok (feature.position - start, scheduled, budget, cache)
        | .ok (true, cache) =>
          scheduleEncoderLoop request numNewTokens maxNumEncoderInputTokens rest
            (scheduled ++ [inputId]) (budget - feature.numEmbeds)
            (cache.allocate request.requestId inputId feature)

omit [DecidableEq H] in
/-- Decide which of a request's images run this step. -/
def scheduleEncoder (r : RequestId) (numNewTokens encoderBudget : ℕ) :
    Except PyError (ℕ × List ℕ × ℕ × EncoderCacheManager) :=
  let request := s.request r
  if request.mmFeatures = [] then
    .ok (numNewTokens, [], encoderBudget, s.encoderCacheManager)
  else
    scheduleEncoderLoop request numNewTokens s.config.maxNumEncoderInputTokens
      (request.mmFeatures.mapIdx fun i feature => (i, feature)) [] encoderBudget
      s.encoderCacheManager

/-- Drop the encoder references whose placeholders are fully computed. -/
def freeEncoderInputs (r : RequestId) : Scheduler H :=
  let request := s.request r
  let held := s.encoderCacheManager.getCachedInputIds r
  { s with
    encoderCacheManager := held.foldl (fun cache inputId =>
      match request.mmFeatures[inputId]? with
      | none => cache
      | some feature =>
        if feature.position + feature.length ≤ request.numComputedTokens then
          cache.freeEncoderInput r inputId feature
        else cache) s.encoderCacheManager }

/-! ### Preemption and release -/

omit [DecidableEq H] in
/-- The victim of the priority policy: the first of the running requests with
the greatest priority and arrival. -/
def maxVictim (request : RequestId → Request H) (best : RequestId) : List RequestId → RequestId
  | [] => best
  | r :: rest =>
    if (request best).priority < (request r).priority ∨
        (request best).priority = (request r).priority ∧
          (request best).arrivalTime < (request r).arrivalTime then
      maxVictim request r rest
    else
      maxVictim request best rest

omit [DecidableEq H] in
/-- Whom to preempt: the last running request, or the least important one. -/
def selectVictim : Except PyError RequestId :=
  match s.config.policy with
  | .priority =>
    match s.running with
    | [] => .error (.valueError "max() iterable argument is empty")
    | r :: rest => .ok (maxVictim s.request r rest)
  | .fcfs =>
    match s.running.getLast? with
    | none => .error (.indexError "pop from empty list")
    | some r => .ok r

omit [DecidableEq H] in
/-- Preempt by recompute: the blocks go back, and the request goes back to the
front of the waiting queue. -/
def preemptRequest (r : RequestId) : Except PyError (Scheduler H) :=
  if (s.request r).status ≠ .running then
    .error (.assertionError
      s!"only running requests can be preempted, got {(s.request r).status.name}")
  else
    match s.kvCacheManager.free r with
    | .error e => .error e
    | .ok kvCacheManager =>
      let table := Function.update s.request r (s.request r).preempted
      .ok { s with
        kvCacheManager := kvCacheManager
        request := table
        numPreemptionsTotal := s.numPreemptionsTotal + 1
        waiting := s.waiting.prependRequest table r }

/-- Release a finished request: to the connector, from the encoder cache, its
blocks, and its entry. -/
def freeRequest (r : RequestId) : Except PyError (Scheduler H) :=
  let request := s.request r
  if request.isFinished = false then
    .error (.assertionError s!"request {r} freed while still {request.status.name}")
  else
    match s.kvCacheManager.free r with
    | .error e => .error e
    | .ok kvCacheManager =>
      .ok { s with
        connector := s.connector.map (·.requestFinished request)
        encoderCacheManager :=
          if request.mmFeatures = [] then s.encoderCacheManager
          else s.encoderCacheManager.free request
        kvCacheManager := kvCacheManager
        finishedReqIds := EncoderCacheManager.insertNew s.finishedReqIds r
        requests := s.requests.erase r }

omit [DecidableEq H] in
/-- Whether a grammar-blocked request is ready to be admitted. -/
def promoteGrammarRequest (r : RequestId) : Bool × Scheduler H :=
  match (s.request r).structuredOutputRequest with
  | none => (true, s.modifyRequest r (·.withStatus .waiting))
  | some .compiling => (false, s)
  | some .failed =>
    (false, { s with
      grammarCompileErrorReqs := EncoderCacheManager.insertNew s.grammarCompileErrorReqs r })
  | some .compiled =>
    (true, s.modifyRequest r (·.withStatus
      (if (s.request r).numPreemptions ≠ 0 then .preempted else .waiting)))

omit [DecidableEq H] in
/-- Return set-aside requests to the head of the waiting queue. -/
def restoreSkippedWaiting : Scheduler H :=
  if s.skippedWaiting.items = [] then
    s
  else
    { s with
      waiting := s.waiting.prependRequests s.request s.skippedWaiting
      skippedWaiting := .create s.config.policy }

end Scheduler

/-! ### The loops of `schedule` -/

/-- Where a call of `schedule` stands: at the head of the loop over the running
requests, before the allocation for one of them, at the head of the admission
loop, before the allocation for the request to admit, or after the loops. -/
inductive Phase where
  | running
  | allocating (requestId : RequestId) (numNewTokens : ℕ)
  | admission
  | admitting (requestId : RequestId) (newComputedBlocks : List (List BlockId))
      (numNewLocalComputedTokens numExternalTokens numNewTokens : ℕ) (encoderInputs : List ℕ)
  | finished
deriving Repr, DecidableEq

/-- The local variables of a call of `schedule`. -/
structure StepState (H : Type) where
  scheduler : Scheduler H
  scheduledNewReqs : List RequestId
  scheduledResumedReqs : List RequestId
  scheduledRunningReqs : List RequestId
  preemptedReqs : List RequestId
  reqToNewBlocks : Dict RequestId (List (List BlockId))
  numScheduledTokens : Dict RequestId ℕ
  scheduledSpecDecodeTokens : Dict RequestId (List TokenId)
  scheduledEncoderInputs : Dict RequestId (List ℕ)
  encoderBudget : ℕ
  tokenBudget : ℕ
  reqIndex : ℕ
  scheduledLoras : List ℕ
  phase : Phase

namespace StepState

variable {H : Type} [DecidableEq H]

omit [DecidableEq H] in
def start (s : Scheduler H) : StepState H where
  scheduler := s
  scheduledNewReqs := []
  scheduledResumedReqs := []
  scheduledRunningReqs := []
  preemptedReqs := []
  reqToNewBlocks := .empty
  numScheduledTokens := .empty
  scheduledSpecDecodeTokens := .empty
  scheduledEncoderInputs := .empty
  encoderBudget := s.config.maxNumEncoderInputTokens
  tokenBudget := s.config.maxNumScheduledTokens
  reqIndex := 0
  scheduledLoras := []
  phase := .running

variable (l : StepState H)

/-- Undo `_schedule_encoder` for a request that did not make the batch, and give
its budget back. -/
def releaseEncoderReservation (r : RequestId) (inputIds : List ℕ) : StepState H :=
  let features := inputIds.filterMap fun inputId =>
    ((l.scheduler.request r).mmFeatures[inputId]?).map fun feature => (inputId, feature)
  { l with
    scheduler := { l.scheduler with
      encoderCacheManager := features.foldl
        (fun cache entry => cache.freeEncoderInput r entry.1 entry.2)
        l.scheduler.encoderCacheManager }
    scheduledEncoderInputs := l.scheduledEncoderInputs.delete r
    encoderBudget := l.encoderBudget + (features.map fun entry => entry.2.numEmbeds).sum }

omit [DecidableEq H] in
/-- Between the loops: the adapters already resident, and no admission where
something was preempted. -/
def enterAdmission : Except PyError (StepState H) :=
  let s := l.scheduler
  let phase := if l.preemptedReqs = [] then Phase.admission else Phase.finished
  match s.config.maxLoras with
  | none => .ok { l with phase := phase }
  | some maxLoras =>
    let loras := (s.running.filterMap fun r => (s.request r).loraRequest.map (·.loraIntId)).dedup
    if maxLoras < loras.length then
      .error (.assertionError
        s!"{loras.length} adapters are resident but max_loras is {maxLoras} (R16.1)")
    else
      .ok { l with scheduledLoras := loras, phase := phase }

omit [DecidableEq H] in
def capShare (threshold numNewTokens : ℕ) : ℕ :=
  if 0 < threshold ∧ threshold < numNewTokens then threshold else numNewTokens

omit [DecidableEq H] in
/-- Speculation is off above a batch size: the request drops its drafts. -/
def disableSpeculation (s : Scheduler H) (r : RequestId) : Scheduler H :=
  match s.config.specDisableByBatchSize with
  | none => s
  | some size => if size < s.running.length then s.modifyRequest r (·.withSpecTokenIds []) else s

omit [DecidableEq H] in
/-- An iteration over the running requests, up to its allocation. -/
def runningStep : Except PyError (StepState H) :=
  match l.scheduler.running[l.reqIndex]? with
  | none => l.enterAdmission
  | some r =>
    if l.tokenBudget = 0 then
      l.enterAdmission
    else
      let s := disableSpeculation l.scheduler r
      let request := s.request r
      let shortfall : ℤ := request.numTokensWithSpec - request.numComputedTokens
      if request.numTokensWithSpec ≤ request.numComputedTokens then
        .error (.assertionError (s!"request {r} has {request.numComputedTokens} "
          ++ s!"computed tokens against {request.numTokensWithSpec} total, so "
          ++ s!"this step would schedule {shortfall}. The count ran ahead of "
          ++ "the request's history -- under speculation that means rejected "
          ++ "drafts were not rolled back (R14)."))
      else
        let numNewTokens := min
          (min (capShare s.config.longPrefillTokenThreshold
            (request.numTokensWithSpec - request.numComputedTokens)) l.tokenBudget)
          (s.config.maxModelLen - request.numComputedTokens)
        -- the request is at max_model_len
        if numNewTokens = 0 then
          .ok { l with scheduler := s, reqIndex := l.reqIndex + 1 }
        else
          match s.scheduleEncoder r numNewTokens l.encoderBudget with
          | .error e => .error e
          | .ok (numNewTokens, encoderInputs, encoderBudget, encoderCacheManager) =>
            let l := { l with
              scheduler := { s with encoderCacheManager := encoderCacheManager }
              encoderBudget := encoderBudget }
            -- an image has no room yet, and nothing goes before it
            if numNewTokens = 0 then
              .ok { l with reqIndex := l.reqIndex + 1 }
            else
              .ok { l with
                scheduledEncoderInputs :=
                  if encoderInputs = [] then l.scheduledEncoderInputs
                  else l.scheduledEncoderInputs.store r encoderInputs
                phase := .allocating r numNewTokens }

omit [DecidableEq H] in
/-- The batch gains a running request: the drafts that fit are verified, the
others dropped. -/
def commitRunning (r : RequestId) (numNewTokens : ℕ) (newBlocks : List (List BlockId))
    (kvCacheManager : KVCacheManager H) : StepState H :=
  let request := l.scheduler.request r
  let numSpecScheduled := numNewTokens + request.numComputedTokens - request.numTokens
  let s := { l.scheduler with kvCacheManager := kvCacheManager }
  { l with
    scheduler := if request.specTokenIds = [] then s else s.modifyRequest r (·.withSpecTokenIds [])
    scheduledRunningReqs := l.scheduledRunningReqs ++ [r]
    reqToNewBlocks := l.reqToNewBlocks.store r newBlocks
    numScheduledTokens := l.numScheduledTokens.store r numNewTokens
    tokenBudget := l.tokenBudget - numNewTokens
    scheduledSpecDecodeTokens :=
      if request.specTokenIds ≠ [] ∧ 0 < numSpecScheduled then
        l.scheduledSpecDecodeTokens.store r (request.specTokenIds.take numSpecScheduled)
      else l.scheduledSpecDecodeTokens
    reqIndex := l.reqIndex + 1
    phase := .running }

omit [DecidableEq H] in
/-- The victim leaves the running list and, under the priority policy, the batch
if it is in it already. -/
def dropVictim (victim : RequestId) : Except PyError (StepState H) :=
  let dropped := { l with
    scheduler := { l.scheduler with running := l.scheduler.running.erase victim } }
  match l.scheduler.config.policy with
  | .fcfs => .ok { l with
      scheduler := { l.scheduler with running := l.scheduler.running.dropLast } }
  | .priority =>
    if victim ∈ l.scheduledRunningReqs then
      match l.numScheduledTokens.find victim with
      | none => .error (.keyError s!"{victim}")
      | some numScheduled =>
        .ok { dropped with
          scheduledRunningReqs := l.scheduledRunningReqs.erase victim
          tokenBudget := l.tokenBudget + numScheduled
          numScheduledTokens := l.numScheduledTokens.delete victim
          reqToNewBlocks := l.reqToNewBlocks.delete victim
          reqIndex := l.reqIndex - 1 }
    else
      .ok dropped

/-- Preempt a victim so that `r` may fit. Where that is `r` itself, nothing is
left to give up, and nothing later will fit either. -/
def preemptFor (r : RequestId) : Except PyError (StepState H) :=
  match l.scheduler.selectVictim with
  | .error e => .error e
  | .ok victim =>
    match l.dropVictim victim with
    | .error e => .error e
    | .ok l =>
      let l := l.releaseEncoderReservation victim (l.scheduledEncoderInputs.findD victim [])
      match l.scheduler.preemptRequest victim with
      | .error e => .error e
      | .ok s =>
        let l := { l with scheduler := s, preemptedReqs := l.preemptedReqs ++ [victim] }
        if victim = r then
          (l.releaseEncoderReservation r (l.scheduledEncoderInputs.findD r [])).enterAdmission
        else
          .ok l

/-- An attempt to allocate for a running request. -/
def allocatingStep (r : RequestId) (numNewTokens : ℕ) : Except PyError (StepState H) :=
  match l.scheduler.kvCacheManager.allocateSlots (l.scheduler.request r) numNewTokens 0 none 0
      false with
  | .error e => .error e
  | .ok (some newBlocks, kvCacheManager) =>
    .ok (l.commitRunning r numNewTokens newBlocks kvCacheManager)
  | .ok (none, kvCacheManager) =>
    ({ l with scheduler := { l.scheduler with kvCacheManager := kvCacheManager } } :
      StepState H).preemptFor r

omit [DecidableEq H] in
/-- Set the head of the waiting queue aside. -/
def setAside (s : Scheduler H) : Except PyError (StepState H) :=
  match s.waiting.popRequest with
  | .error e => .error e
  | .ok (r, waiting) =>
    .ok { l with
      scheduler := { s with
        waiting := waiting
        skippedWaiting := s.skippedWaiting.addRequest s.request r }
      phase := .admission }

omit [DecidableEq H] in
def lacksAdapterSlot (request : Request H) : Bool :=
  match l.scheduler.config.maxLoras, request.loraRequest with
  | some maxLoras, some lora =>
    decide (maxLoras ≤ l.scheduledLoras.length ∧ lora.loraIntId ∉ l.scheduledLoras)
  | _, _ => false

/-- What an external store holds of a prompt beyond the local hit. -/
def matchExternal (s : Scheduler H) (request : Request H) (numComputedTokens : ℕ) :
    ℕ × Scheduler H :=
  match s.connector with
  | none => (0, s)
  | some connector =>
    let (numExternalTokens, connector) :=
      connector.getNumNewMatchedTokens request numComputedTokens
    (numExternalTokens, { s with connector := some connector })

/-- The lookups for a request that is not blocked, up to its allocation. -/
def lookupStep (s : Scheduler H) (r : RequestId) : Except PyError (StepState H) :=
  match s.kvCacheManager.getComputedBlocks (s.request r) with
  | .error e => .error e
  | .ok ((newComputedBlocks, numNewLocalComputedTokens), kvCacheManager) =>
    let (numExternalTokens, s) := matchExternal { s with kvCacheManager := kvCacheManager }
      (s.request r) numNewLocalComputedTokens
    let numNewTokens := capShare s.config.longPrefillTokenThreshold
      ((s.request r).numTokens - (numNewLocalComputedTokens + numExternalTokens))
    -- without chunking the whole prompt has to fit in this step
    if s.config.enableChunkedPrefill = false ∧ l.tokenBudget < numNewTokens then
      .ok { l with scheduler := s, phase := .finished }
    else if min numNewTokens l.tokenBudget = 0 then
      .ok { l with scheduler := s, phase := .finished }
    else
      match s.scheduleEncoder r (min numNewTokens l.tokenBudget) l.encoderBudget with
      | .error e => .error e
      | .ok (numNewTokens, encoderInputs, encoderBudget, encoderCacheManager) =>
        let s := { s with encoderCacheManager := encoderCacheManager }
        let l := { l with encoderBudget := encoderBudget }
        -- an image has no room: set aside, for the requests behind
        if numNewTokens = 0 then
          match s.kvCacheManager.free r with
          | .error e => .error e
          | .ok kvCacheManager => l.setAside { s with kvCacheManager := kvCacheManager }
        else
          .ok { l with
            scheduler := s
            phase := .admitting r newComputedBlocks numNewLocalComputedTokens numExternalTokens
              numNewTokens encoderInputs }

/-- An iteration of the admission loop, up to its allocation. -/
def admissionStep : Except PyError (StepState H) :=
  let s := l.scheduler
  if s.waiting.items = [] ∨ l.tokenBudget = 0 then
    .ok { l with phase := .finished }
  else if s.config.maxNumRunningReqs ≤ s.running.length then
    .ok { l with phase := .finished }
  else if s.config.enableChunkedPrefill ∧ s.config.maxNumPartialPrefills ≤ s.numPartialPrefills then
    .ok { l with phase := .finished }
  else
    match s.waiting.peekRequest with
    | .error e => .error e
    | .ok r =>
      -- set aside, since one behind it may want an adapter that is resident
      if l.lacksAdapterSlot (s.request r) then
        l.setAside s
      else if (s.request r).status = .waitingForStructuredOutputGrammar then
        match s.promoteGrammarRequest r with
        | (false, s) => l.setAside s
        | (true, s) => l.lookupStep s r
      else
        l.lookupStep s r

/-- The batch gains a request from the waiting queue. -/
def commitAdmitted (s : Scheduler H) (numNewLocalComputedTokens numExternalTokens numNewTokens : ℕ)
    (encoderInputs : List ℕ) : Except PyError (StepState H) :=
  match s.waiting.popRequest with
  | .error e => .error e
  | .ok (r, waiting) =>
    let request := s.request r
    let blocks := s.kvCacheManager.getBlocks r
    if request.status ≠ .waiting ∧ request.status ≠ .preempted then
      .error (.runtimeError (s!"request {r} was admitted from the waiting "
        ++ s!"queue with unexpected status {request.status.name}"))
    else
      -- what is held outside is loaded into these blocks in this step
      let connector := if numExternalTokens = 0 then s.connector
        else s.connector.map (·.updateStateAfterAlloc request blocks numExternalTokens)
      let s := { s with
        waiting := waiting
        running := s.running ++ [r]
        pendingScheduled := s.pendingScheduled ++ [r]
        connector := connector }
      .ok { l with
        scheduler := s.modifyRequest r (·.admitted
          (numNewLocalComputedTokens + numExternalTokens) numNewLocalComputedTokens)
        scheduledEncoderInputs :=
          if encoderInputs = [] then l.scheduledEncoderInputs
          else l.scheduledEncoderInputs.store r encoderInputs
        scheduledNewReqs :=
          if request.status = .waiting then l.scheduledNewReqs ++ [r] else l.scheduledNewReqs
        scheduledResumedReqs :=
          if request.status = .waiting then l.scheduledResumedReqs
          else l.scheduledResumedReqs ++ [r]
        scheduledLoras := match request.loraRequest with
          | none => l.scheduledLoras
          | some lora => EncoderCacheManager.insertNew l.scheduledLoras lora.loraIntId
        reqToNewBlocks := l.reqToNewBlocks.store r blocks
        numScheduledTokens := l.numScheduledTokens.store r numNewTokens
        tokenBudget := l.tokenBudget - numNewTokens
        phase := .admission }

/-- An attempt to allocate for the head of the waiting queue. Where it does not
fit, the request stays at the head and the loop ends. -/
def admittingStep (r : RequestId) (newComputedBlocks : List (List BlockId))
    (numNewLocalComputedTokens numExternalTokens numNewTokens : ℕ) (encoderInputs : List ℕ) :
    Except PyError (StepState H) :=
  match l.scheduler.kvCacheManager.allocateSlots (l.scheduler.request r) numNewTokens
      (numNewLocalComputedTokens + numExternalTokens) (some newComputedBlocks) 0 false with
  | .error e => .error e
  | .ok (none, kvCacheManager) =>
    .ok (({ l with
      scheduler := { l.scheduler with kvCacheManager := kvCacheManager }
      phase := .finished } : StepState H).releaseEncoderReservation r encoderInputs)
  | .ok (some _, kvCacheManager) =>
    l.commitAdmitted { l.scheduler with kvCacheManager := kvCacheManager }
      numNewLocalComputedTokens numExternalTokens numNewTokens encoderInputs

def advance : Except PyError (StepState H) :=
  match l.phase with
  | .running => l.runningStep
  | .allocating r numNewTokens => l.allocatingStep r numNewTokens
  | .admission => l.admissionStep
  | .admitting r newComputedBlocks numNewLocalComputedTokens numExternalTokens numNewTokens
      encoderInputs =>
    l.admittingStep r newComputedBlocks numNewLocalComputedTokens numExternalTokens numNewTokens
      encoderInputs
  | .finished => .ok l

/-! ### After the loops -/

omit [DecidableEq H] in
/-- The entries of the running requests in the batch: only what the worker has
not seen goes on the wire. -/
def makeCachedRequestData : Except PyError CachedRequestData :=
  let s := l.scheduler
  let entry (r : RequestId) : Except PyError (List TokenId × Option (List (List BlockId))) :=
    match l.numScheduledTokens.find r, l.reqToNewBlocks.find r with
    | some numNew, some blocks =>
      let request := s.request r
      .ok ((request.allTokenIds.drop request.numComputedTokens).take numNew,
        if blocks.all (· = []) then none else some blocks)
    | _, _ => .error (.keyError s!"{r}")
  match l.scheduledRunningReqs.mapM entry with
  | .error e => .error e
  | .ok entries =>
    .ok {
      reqIds := l.scheduledRunningReqs
      resumedReqIds := []
      newTokenIds := entries.map (·.1)
      newBlockIds := entries.map (·.2)
      numComputedTokens := l.scheduledRunningReqs.map fun r => (s.request r).numComputedTokens
      numOutputTokens := l.scheduledRunningReqs.map fun r => (s.request r).numOutputTokens }

omit [DecidableEq H] in
def makeNewRequestData : Except PyError (List NewRequestData) :=
  (l.scheduledNewReqs ++ l.scheduledResumedReqs).mapM fun r =>
    match l.reqToNewBlocks.find r with
    | none => .error (.keyError s!"{r}")
    | some blocks => .ok (NewRequestData.fromRequest (l.scheduler.request r) blocks)

omit [DecidableEq H] in
/-- The constrained requests of the batch, in id order, each with its row. A
request on a prefill chunk samples nothing and has none. -/
def structuredOutputRows : Except PyError (Dict RequestId ℕ) :=
  let s := l.scheduler
  if l.numScheduledTokens.keys.any fun r => r ∉ s.requests then
    .error (.keyError "request")
  else
    let constrained := (l.numScheduledTokens.keys.filter fun r =>
      (s.request r).useStructuredOutput && !(s.request r).isPrefillChunk).mergeSort
    .ok ((constrained.zip (List.range constrained.length)).foldl
      (fun rows entry => rows.store entry.1 entry.2) .empty)

omit [DecidableEq H] in
/-- Advance the computed counts of the batch, once the decision is built. -/
def updateAfterSchedule (s : Scheduler H) : List (RequestId × ℕ) → Except PyError (Scheduler H)
  | [] => .ok { s with finishedReqIds := [] }
  | (r, numScheduled) :: rest =>
    if r ∉ s.requests then
      .error (.keyError s!"{r}")
    else
      updateAfterSchedule (s.modifyRequest r (·.advanced numScheduled)) rest

omit [DecidableEq H] in
/-- What follows the loops: the checks, the restored queue, and the output. -/
def finish : Except PyError (SchedulerOutput × Scheduler H) :=
  let total := (l.numScheduledTokens.items.map (·.2)).sum
  if l.scheduler.config.maxNumScheduledTokens < total then
    .error (.assertionError (s!"scheduled {total} tokens against a budget of "
      ++ s!"{l.scheduler.config.maxNumScheduledTokens} (R5.3)"))
  else if l.scheduler.config.maxNumRunningReqs < l.scheduler.running.length then
    .error (.assertionError (s!"{l.scheduler.running.length} running requests exceeds "
      ++ s!"max_num_seqs={l.scheduler.config.maxNumRunningReqs} (R5.3)"))
  else
    let l := { l with scheduler := l.scheduler.restoreSkippedWaiting }
    let s := l.scheduler
    match l.makeNewRequestData with
    | .error e => .error e
    | .ok newReqsData =>
      match l.makeCachedRequestData with
      | .error e => .error e
      | .ok cachedReqsData =>
        match l.structuredOutputRows with
        | .error e => .error e
        | .ok rows =>
          let (freed, encoderCacheManager) := s.encoderCacheManager.getFreedMmHashes
          let output : SchedulerOutput := {
            scheduledNewReqs := newReqsData
            scheduledCachedReqs := cachedReqsData
            numScheduledTokens := l.numScheduledTokens
            totalNumScheduledTokens := total
            scheduledSpecDecodeTokens := l.scheduledSpecDecodeTokens
            scheduledEncoderInputs := l.scheduledEncoderInputs
            numCommonPrefixBlocks := match s.running with
              | [] => s.kvCacheManager.kvCacheConfig.kvCacheGroups.map fun _ => 0
              | r :: _ => s.kvCacheManager.getNumCommonPrefixBlocks r
            finishedReqIds := s.finishedReqIds
            freeEncoderMmHashes := freed
            preemptedReqIds := if l.preemptedReqs = [] then none else some l.preemptedReqs
            hasStructuredOutputRequests := decide (rows.items ≠ [])
            structuredOutputRequestIds := rows
            kvConnectorMetadata := s.connector.map (·.buildConnectorMeta.1) }
          let s := { s with
            encoderCacheManager := encoderCacheManager
            connector := s.connector.map (·.buildConnectorMeta.2)
            stepIndex := s.stepIndex + 1 }
          match updateAfterSchedule s l.numScheduledTokens.items with
          | .error e => .error e
          | .ok s => .ok (output, s)

def runLoops (l : StepState H) : ℕ → Except PyError (StepState H)
  | 0 => .error .outOfFuel
  | fuel + 1 =>
    if l.phase = .finished then .ok l
    else
      match l.advance with
      | .error e => .error e
      | .ok l => l.runLoops fuel

end StepState

namespace Scheduler

variable {H : Type} [DecidableEq H] (s : Scheduler H)

omit [DecidableEq H] in
/-- Each running request is taken up, given slots, preempted and taken up again
at most once for each that is preempted, and each waiting one is taken up and
admitted once. -/
def scheduleFuel : ℕ := 5 * s.running.length + 2 * s.waiting.items.length + 4

def schedule : Except PyError (SchedulerOutput × Scheduler H) :=
  match (StepState.start s).runLoops s.scheduleFuel with
  | .error e => .error e
  | .ok l => l.finish

/-! ### Folding results back -/

omit [DecidableEq H] in
/-- Append tokens one at a time, until one stops the request: the tokens kept,
whether it stopped, and the request. -/
def updateRequestWithOutput (maxModelLen : ℕ) (request : Request H) :
    List TokenId → Except PyError (List TokenId × Bool × Request H)
  | [] => .ok ([], false, request)
  | tokenId :: rest =>
    match checkStop (request.appendOutputTokenIds tokenId) maxModelLen with
    | .error e => .error e
    | .ok (true, request) => .ok ([tokenId], true, request)
    | .ok (false, request) =>
      match updateRequestWithOutput maxModelLen request rest with
      | .error e => .error e
      | .ok (kept, stopped, request) => .ok (tokenId :: kept, stopped, request)

def atIndex {α : Type} (output : ModelRunnerOutput) (r : RequestId) (l : List α) : Option α :=
  (output.reqIdToIndex.find r).bind fun i => l[i]?

end Scheduler

/-- The local variables of the loop of `update_from_output`. -/
structure UpdateState (H : Type) where
  scheduler : Scheduler H
  outputs : Dict ℕ (List EngineCoreOutput)
  stillRunning : List RequestId

namespace UpdateState

variable {H : Type} [DecidableEq H] (u : UpdateState H)

omit [DecidableEq H] in
/-- Roll the drafts the target rejected off the computed count. -/
def rollBack (r : RequestId) (numDrafts numGenerated : ℕ) : Scheduler H :=
  let s := u.scheduler
  if numDrafts = 0 then
    s
  else
    let s := { s with
      numDraftTokensTotal := s.numDraftTokensTotal + numDrafts
      numAcceptedTokensTotal := s.numAcceptedTokensTotal + (numGenerated - 1) }
    s.modifyRequest r fun request =>
      request.withNumComputedTokens (request.numComputedTokens - (numDrafts - (numGenerated - 1)))

/-- The result for one request of the batch: its tokens, or its pooled vector.
Returns the tokens kept, whether it stopped, the vector, and the request. -/
def applyOutput (s : Scheduler H) (r : RequestId) (generated : List TokenId)
    (poolingOutput : Option PoolingOutput) :
    Except PyError (List TokenId × Bool × Option PoolingOutput × Request H) :=
  let request := s.request r
  if request.usePooling then
    match poolingOutput with
    | none => .ok ([], false, none, request)
    | some vector => .ok ([], true, some vector, request.withStatus .finishedStopped)
  else
    match Scheduler.updateRequestWithOutput s.config.maxModelLen request generated with
    | .error e => .error e
    | .ok (kept, stopped, request) => .ok (kept, stopped, none, request)

/-- One running request: fold the step's result into it. -/
def updateOne (schedulerOutput : SchedulerOutput) (modelRunnerOutput : ModelRunnerOutput)
    (r : RequestId) : Except PyError (UpdateState H) :=
  if schedulerOutput.numScheduledTokens.findD r 0 = 0 then
    .ok { u with stillRunning := u.stillRunning ++ [r] }
  else
    let generated := (Scheduler.atIndex modelRunnerOutput r
      modelRunnerOutput.sampledTokenIds).getD []
    let poolingOutput := (Scheduler.atIndex modelRunnerOutput r
      (modelRunnerOutput.poolerOutput.getD [])).join
    let s := u.rollBack r (schedulerOutput.scheduledSpecDecodeTokens.findD r []).length
      generated.length
    match applyOutput s r generated poolingOutput with
    | .error e => .error e
    | .ok (newTokenIds, stopped, poolingOutput, request) =>
      let s := s.modifyRequest r fun _ => request
      let output : EngineCoreOutput := {
        requestId := r
        newTokenIds := newTokenIds
        finishReason := request.getFinishedReason
        stopReason := request.stopReason
        numCachedTokens := request.numCachedTokens
        poolingOutput := poolingOutput }
      -- a chunk of a prompt produces nothing
      let outputs := if newTokenIds ≠ [] ∨ stopped then
          u.outputs.store request.clientIndex (u.outputs.findD request.clientIndex [] ++ [output])
        else u.outputs
      if stopped then
        match s.freeRequest r with
        | .error e => .error e
        | .ok s => .ok { u with scheduler := s, outputs := outputs }
      else
        .ok { scheduler := s, outputs := outputs, stillRunning := u.stillRunning ++ [r] }

def updateAll (schedulerOutput : SchedulerOutput) (modelRunnerOutput : ModelRunnerOutput)
    (u : UpdateState H) : List RequestId → Except PyError (UpdateState H)
  | [] => .ok u
  | r :: rest =>
    match u.updateOne schedulerOutput modelRunnerOutput r with
    | .error e => .error e
    | .ok u => updateAll schedulerOutput modelRunnerOutput u rest

end UpdateState

namespace Scheduler

variable {H : Type} [DecidableEq H] (s : Scheduler H)

def shedAll (s : Scheduler H) : List RequestId → Except PyError (Scheduler H)
  | [] => .ok s
  | r :: rest =>
    match s.kvCacheManager.removeSkippedBlocks (s.request r) with
    | .error e => .error e
    | .ok kvCacheManager =>
      let s := { s with kvCacheManager := kvCacheManager }
      shedAll (if (s.request r).mmFeatures = [] then s else s.freeEncoderInputs r) rest

omit [DecidableEq H] in
/-- Keep the drafts the runner proposed for the next step. -/
def storeDrafts (modelRunnerOutput : ModelRunnerOutput) (r : RequestId) (s : Scheduler H) :
    Scheduler H :=
  match modelRunnerOutput.specTokenIds with
  | none => s
  | some drafts =>
    match atIndex modelRunnerOutput r drafts with
    | none => s
    | some specTokenIds => s.modifyRequest r (·.withSpecTokenIds specTokenIds)

/-- Map the worker's output back onto request state: the outputs per client. -/
def updateFromOutput (schedulerOutput : SchedulerOutput) (modelRunnerOutput : ModelRunnerOutput) :
    Except PyError (Dict ℕ (List EngineCoreOutput) × Scheduler H) :=
  match UpdateState.updateAll schedulerOutput modelRunnerOutput ⟨s, .empty, []⟩ s.running with
  | .error e => .error e
  | .ok u =>
    match u.scheduler.shedAll u.stillRunning with
    | .error e => .error e
    | .ok s =>
      let s := u.stillRunning.foldl (fun s r => s.storeDrafts modelRunnerOutput r) s
      .ok (u.outputs, { s with running := u.stillRunning })

/-! ### Termination from outside -/

def finishOne (finishedStatus : RequestStatus) (r : RequestId) : Except PyError (Scheduler H) :=
  if r ∉ s.requests ∨ (s.request r).isFinished then
    .ok s
  else
    let removed : Except PyError (Scheduler H) :=
      if (s.request r).status = .running then
        if r ∈ s.running then .ok { s with running := s.running.erase r }
        else .error (.valueError "list.remove(x): x not in list")
      else
        match s.waiting.removeRequest r with
        | .error e => .error e
        | .ok waiting => .ok { s with waiting := waiting }
    match removed with
    | .error e => .error e
    | .ok s => (s.modifyRequest r (·.withStatus finishedStatus)).freeRequest r

def finishAll (finishedStatus : RequestStatus) (s : Scheduler H) :
    List RequestId → Except PyError (Scheduler H)
  | [] => .ok s
  | r :: rest =>
    match s.finishOne finishedStatus r with
    | .error e => .error e
    | .ok s => finishAll finishedStatus s rest

def finishRequests (requestIds : List RequestId) (finishedStatus : RequestStatus) :
    Except PyError (Scheduler H) :=
  if finishedStatus.isFinished then finishAll finishedStatus s requestIds
  else .error (.assertionError "")

def resetPrefixCache : Bool × Scheduler H :=
  let (done, kvCacheManager) := s.kvCacheManager.resetPrefixCache
  (done, { s with kvCacheManager := kvCacheManager })

end Scheduler

end Pvllm
