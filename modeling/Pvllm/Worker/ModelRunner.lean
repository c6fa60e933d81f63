import Pvllm.Core.EncoderCache
import Pvllm.Core.Sched.Output
import Pvllm.Worker.States
import Pvllm.Worker.BlockTable
import Mathlib.Data.List.Sort

/-!
The model runner: what the worker does with a `SchedulerOutput`.

A step of the worker has two halves. The first (`planStep`) brings the worker's
memory up to date and lays the batch out; the second (`finishStep`) samples. The
forward pass and what it costs in time are left out. What the simulated model emits
is a parameter: the token at an output position of a request, the length planned for
it, and the vector of a pooling request, whose dimensions are part of that function.
Which drafts are accepted is drawn, and the draws are an argument of the step.
-/

namespace Pvllm

structure SimModel where
  sampleToken : RequestId → ℕ → ℕ → TokenId
  plannedOutputLength : RequestId → ℕ → ℕ
  embed : RequestId → List TokenId → PoolingOutput

namespace SimModel

/-- How many drafts a step accepts: verification stops at the first rejection. -/
def acceptedDraftCount (draws : List Bool) (numDrafts : ℕ) : ℕ :=
  ((draws.take numDrafts).takeWhile id).length

def proposeDrafts (model : SimModel) (reqId : RequestId) (position numDrafts maxTokens : ℕ) :
    List TokenId :=
  let planned := model.plannedOutputLength reqId maxTokens
  ((List.range' 1 numDrafts).filter fun offset => decide (position + offset < planned)).map
    fun offset => model.sampleToken reqId (position + offset) maxTokens

end SimModel

/-! ### The batch -/

structure BatchRow where
  reqId : RequestId
  reqIdx : ℕ
  numScheduledTokens : ℕ
  seqLen : ℕ
  inputIds : List TokenId
  positions : List ℕ
  prefillLen : ℕ
  numComputedPrefillTokens : ℕ
  isPrefilling : Bool
deriving Repr, DecidableEq

abbrev InputBatch := List BatchRow

/-- Order the batch decodes-first; ties break on the request id. -/
def sortBatchReqIds (numScheduledTokens : Dict RequestId ℕ) (decodeQueryLen : ℕ) :
    List RequestId :=
  let isLong (r : RequestId) : ℕ := if decodeQueryLen < numScheduledTokens.findD r 0 then 1 else 0
  numScheduledTokens.keys.insertionSort fun r r' =>
    isLong r < isLong r' ∨ (isLong r = isLong r' ∧ r ≤ r')

structure SimModelRunner where
  simModel : SimModel
  numSpecTokens : ℕ
  reqStates : RequestState
  blockTables : BlockTables
  poolingRequests : Dict RequestId (List TokenId)
  encoderOutputs : List String

namespace SimModelRunner

/-- `isinstance(spec, SlidingWindowSpec)`. -/
def isSlidingWindow (spec : KVCacheSpec) : Bool :=
  match spec.kind with
  | .slidingWindow _ => true
  | _ => false

def init (simModel : SimModel) (numSpecTokens maxNumReqs maxModelLen : ℕ)
    (kvCacheConfig : KVCacheConfig) (enableCaching debugInvariants : Bool) : SimModelRunner where
  simModel := simModel
  numSpecTokens := numSpecTokens
  reqStates := .init maxNumReqs
  blockTables := .init (kvCacheConfig.kvCacheGroups.map KVCacheSpec.blockSize) maxNumReqs
    maxModelLen enableCaching
    (kvCacheConfig.kvCacheGroups.map isSlidingWindow)
    debugInvariants
  poolingRequests := .empty
  encoderOutputs := []

variable (runner : SimModelRunner)

/-- A verified step's query is one token and the drafts it carried. -/
def decodeQueryLen : ℕ := 1 + runner.numSpecTokens

/-! ### Persistent batch maintenance -/

/-- Take a slot for a request the worker has not seen before, or has discarded. -/
def addOne (newReq : NewRequestData) : Except PyError SimModelRunner := do
  let maxTokens := (newReq.samplingParams.bind SamplingParams.maxTokens).getD 0
  let prefillTokenIds :=
    if newReq.prefillTokenIds = [] then newReq.promptTokenIds else newReq.prefillTokenIds
  let (reqIdx, states) ← runner.reqStates.addRequest newReq.reqId newReq.promptTokenIds.length
    prefillTokenIds newReq.numComputedTokens maxTokens
  let tables ← runner.blockTables.setBlockIds reqIdx 0 newReq.blockIds
  return { runner with
    reqStates := { states with
      mmFeatures := if newReq.mmFeatures = [] then states.mmFeatures
        else states.mmFeatures.store newReq.reqId newReq.mmFeatures }
    blockTables := tables
    poolingRequests := if newReq.usePooling then
        runner.poolingRequests.store newReq.reqId newReq.promptTokenIds
      else runner.poolingRequests }

def addRequests (output : SchedulerOutput) : Except PyError SimModelRunner :=
  output.scheduledNewReqs.foldlM addOne runner

/-- Patch the state of one request the worker already holds. Without new blocks
there is nothing to append. -/
def updateOne (reqId : RequestId) (newTokenIds : List TokenId) (numComputedTokens : ℕ)
    (numOutputTokens : ℕ) (newBlockIds : Option (List (List BlockId))) :
    Except PyError SimModelRunner := do
  match runner.reqStates.reqIdToIndex.find reqId with
  | none => .error (.keyError
      (s!"the scheduler sent request {reqId} as cached, but the worker holds no state for it. "
        ++ "Its state was dropped without the scheduler being told, or it was resumed without "
        ++ "being sent as new (R5.8)."))
  | some reqIdx =>
    let states := ((runner.reqStates.appendTokens reqIdx newTokenIds).setNumComputedTokens reqIdx
      numComputedTokens).modifyRow reqIdx fun row => { row with numOutputTokens := numOutputTokens }
    let tables ← runner.blockTables.appendBlockIds reqIdx 0 (newBlockIds.getD [])
    return { runner with reqStates := states, blockTables := tables }

/-- The entries of the parallel lists from the `i`-th on, for the requests given. -/
def updateFrom (cached : CachedRequestData) (runner : SimModelRunner) :
    ℕ → List RequestId → Except PyError SimModelRunner
  | _, [] => .ok runner
  | i, reqId :: rest =>
    match runner.updateOne reqId (cached.newTokenIds.getD i []) (cached.numComputedTokens.getD i 0)
      (cached.numOutputTokens.getD i 0) (cached.newBlockIds.getD i none) with
    | .error e => .error e
    | .ok runner => updateFrom cached runner (i + 1) rest

def updateRequests (output : SchedulerOutput) : Except PyError SimModelRunner :=
  updateFrom output.scheduledCachedReqs runner 0 output.scheduledCachedReqs.reqIds

def removeOne (reqId : RequestId) : SimModelRunner :=
  match runner.reqStates.removeRequest reqId with
  | (none, states) => { runner with reqStates := states }
  | (some reqIdx, states) =>
    { runner with reqStates := states, blockTables := runner.blockTables.clear reqIdx }

def finishOne (reqId : RequestId) : SimModelRunner :=
  { runner with
    reqStates := { runner.reqStates with mmFeatures := runner.reqStates.mmFeatures.delete reqId }
    poolingRequests := runner.poolingRequests.delete reqId }.removeOne reqId

def finishRequests (output : SchedulerOutput) : SimModelRunner :=
  output.finishedReqIds.foldl finishOne runner

def freeStates (output : SchedulerOutput) : SimModelRunner :=
  (output.preemptedReqIds.getD []).foldl removeOne runner

/-! ### Input preparation -/

def batchRow (output : SchedulerOutput) (reqId : RequestId) : Except PyError BatchRow :=
  match runner.reqStates.reqIdToIndex.find reqId with
  | none => .error (.keyError s!"{reqId}")
  | some reqIdx =>
    let row := runner.reqStates.row reqIdx
    let numScheduledTokens := output.numScheduledTokens.findD reqId 0
    let positions := List.range' row.numComputedTokens numScheduledTokens
    .ok {
      reqId := reqId
      reqIdx := reqIdx
      numScheduledTokens := numScheduledTokens
      seqLen := row.numComputedTokens + numScheduledTokens
      inputIds := positions.map fun position => row.allTokenIds.getD position 0
      positions := positions
      prefillLen := row.prefillLen
      numComputedPrefillTokens := row.numComputedPrefillTokens
      isPrefilling := decide (row.numComputedPrefillTokens + numScheduledTokens < row.prefillLen) }

def prepareInputs (output : SchedulerOutput) : Except PyError InputBatch :=
  (sortBatchReqIds output.numScheduledTokens runner.decodeQueryLen).mapM (runner.batchRow output)

/-- The slot mapping of each group, from the given one on: what the attention
metadata checks. -/
def prepareAttn (batch : InputBatch) (runner : SimModelRunner) :
    List ℕ → Except PyError (List (List (ℕ × List ℕ)))
  | [] => .ok []
  | groupId :: rest => do
    let slotMapping ← runner.blockTables.computeSlotMapping groupId
      (batch.map fun row => (row.reqIdx, row.positions))
    let slotMappings ← prepareAttn batch runner rest
    return slotMapping :: slotMappings

/-! ### Encoder outputs -/

def discardEncoderOutputs (output : SchedulerOutput) : SimModelRunner :=
  { runner with
    encoderOutputs := runner.encoderOutputs.filter (· ∉ output.freeEncoderMmHashes) }

def identifiers (reqId : RequestId) (inputIds : List ℕ) : List String :=
  inputIds.filterMap fun inputId =>
    ((runner.reqStates.mmFeatures.findD reqId [])[inputId]?).map MultiModalFeatureSpec.identifier

def encodeInputs (output : SchedulerOutput) : SimModelRunner :=
  { runner with
    encoderOutputs := (output.scheduledEncoderInputs.items.flatMap fun entry =>
      runner.identifiers entry.1 entry.2).foldl EncoderCacheManager.insertNew
        runner.encoderOutputs }

/-! ### Execution -/

/-- Everything before the forward pass. No batch when there is nothing to run. -/
def planStep (output : SchedulerOutput) : Except PyError (SimModelRunner × Option InputBatch) := do
  let runner := (runner.finishRequests output).freeStates output
  if output.totalNumScheduledTokens = 0 then
    return (runner, none)
  let runner ← runner.addRequests output
  let runner ← runner.updateRequests output
  let batch ← runner.prepareInputs output
  let _ ← prepareAttn batch runner (List.range runner.blockTables.numKVCacheGroups)
  return ((runner.discardEncoderOutputs output).encodeInputs output, some batch)

/-- The tokens a request of the batch samples, and its drafts for the next step. -/
def sampleOne (output : SchedulerOutput) (draws : RequestId → List Bool) (row : BatchRow) :
    List TokenId × List TokenId :=
  if row.isPrefilling = true ∨ (runner.poolingRequests.find row.reqId).isSome then
    ([], [])
  else
    let slot := runner.reqStates.row row.reqIdx
    let position := slot.numOutputTokens
    let maxTokens := max 1 (slot.maxSeqLen - slot.promptLen)
    let numDrafts := (output.scheduledSpecDecodeTokens.findD row.reqId []).length
    let accepted := SimModel.acceptedDraftCount (draws row.reqId) numDrafts
    let tokens := (List.range (accepted + 1)).map fun offset =>
      runner.simModel.sampleToken row.reqId (position + offset) maxTokens
    (tokens, runner.simModel.proposeDrafts row.reqId (position + tokens.length - 1)
      runner.numSpecTokens maxTokens)

def poolOne (row : BatchRow) : Option PoolingOutput :=
  match runner.poolingRequests.find row.reqId with
  | none => none
  | some promptTokenIds =>
    if row.seqLen < (runner.reqStates.row row.reqIdx).promptLen then none
    else some (runner.simModel.embed row.reqId promptTokenIds)

/-- Produce this step's tokens, and next step's drafts. -/
def sampleTokens (output : SchedulerOutput) (draws : RequestId → List Bool) (batch : InputBatch) :
    ModelRunnerOutput where
  reqIds := batch.map BatchRow.reqId
  reqIdToIndex := (batch.map BatchRow.reqId).zipIdx.foldl
    (fun index entry => index.store entry.1 entry.2) .empty
  sampledTokenIds := batch.map fun row => (runner.sampleOne output draws row).1
  specTokenIds := if runner.numSpecTokens = 0 then none
    else some (batch.map fun row => (runner.sampleOne output draws row).2)
  poolerOutput := if runner.poolingRequests.keys = [] then none
    else some (batch.map runner.poolOne)

/-- The runner's own view of computed tokens tracks what it just processed. -/
def postprocessNumComputedTokens (batch : InputBatch) : SimModelRunner :=
  { runner with
    reqStates := batch.foldl
      (fun states row => states.setNumComputedTokens row.reqIdx row.seqLen) runner.reqStates }

def finishStep (output : SchedulerOutput) (draws : RequestId → List Bool) :
    Option InputBatch → ModelRunnerOutput × SimModelRunner
  | none => (⟨[], .empty, [], none, none⟩, runner)
  | some batch =>
    (runner.sampleTokens output draws batch, runner.postprocessNumComputedTokens batch)

end SimModelRunner

end Pvllm
