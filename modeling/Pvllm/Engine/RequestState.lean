import Pvllm.Core.Sched.Output
import Pvllm.Engine.Detokenizer
import Mathlib.Algebra.Order.Ring.Rat

/-!
What the frontend keeps of a request in flight, and what it records once it ends.

Every time is a time of the engine core's clock. A request either generates, with
sampling parameters and text, or pools, with neither.
-/

namespace Pvllm.Frontend

/-! ### Wire types -/

inductive EngineCoreEventType where
  | queued
  | scheduled
  | preempted
deriving DecidableEq

structure EngineCoreEvent where
  type : EngineCoreEventType
  timestamp : ℚ
deriving DecidableEq

/-- Why a request stopped: a token, or a string. -/
inductive StopReason where
  | token (tokenId : TokenId)
  | string (text : Text)
deriving DecidableEq

/-- One request's result from one step, as the frontend receives it. -/
structure EngineCoreOutput where
  requestId : Text
  newTokenIds : List TokenId
  finishReason : Option FinishReason
  stopReason : Option StopReason
  events : List EngineCoreEvent
  numCachedTokens : ℕ
  poolingOutput : Option PoolingOutput
deriving DecidableEq

/-! ### What the client sends and receives -/

inductive RequestOutputKind where
  | cumulative
  | delta
  | finalOnly
deriving DecidableEq

structure SamplingParams where
  n : ℕ
  seed : Option ℤ
  outputKind : RequestOutputKind
  maxTokens : Option ℕ
  stop : StopParams
deriving DecidableEq

inductive RequestKind where
  | generate (params : SamplingParams)
  | pool
deriving DecidableEq

structure CompletionOutput where
  index : ℕ
  text : Text
  tokenIds : List TokenId
  finishReason : Option FinishReason
  stopReason : Option StopReason
deriving DecidableEq

structure RequestOutput where
  requestId : Text
  prompt : Option Text
  promptTokenIds : List TokenId
  outputs : List CompletionOutput
  finished : Bool
  numCachedTokens : ℕ
deriving DecidableEq

structure PoolingRequestOutput where
  requestId : Text
  outputs : PoolingOutput
  promptTokenIds : List TokenId
  finished : Bool
deriving DecidableEq

/-- What `process_outputs` assembles. -/
inductive ClientOutput where
  | request (output : RequestOutput)
  | pooling (output : PoolingRequestOutput)
deriving DecidableEq

def ClientOutput.requestId : ClientOutput → Text
  | .request output => output.requestId
  | .pooling output => output.requestId

/-! ### Statistics -/

structure FinishedRequestStats where
  finishReason : Option FinishReason
  e2eLatency : ℚ
  queueTime : ℚ
  prefillTime : ℚ
  inferenceTime : ℚ
  decodeTime : ℚ
  timeToFirstToken : ℚ
  timePerOutputToken : ℚ
  numPromptTokens : ℕ
  numGenerationTokens : ℕ
  numCachedTokens : ℕ
  maxTokensParam : Option ℕ
  nParam : ℕ
  observeNParam : Bool
deriving DecidableEq

structure IterationStats where
  numPromptTokens : ℕ
  numCachedPromptTokens : ℕ
  numGenerationTokens : ℕ
  interTokenLatencies : List ℚ
  timeToFirstTokens : List ℚ
  finishedRequests : List FinishedRequestStats
deriving DecidableEq

def IterationStats.empty : IterationStats := ⟨0, 0, 0, [], [], []⟩

/-! ### A request in flight -/

/-- Frontend state for one in-flight request. A child of a parallel request refers to the
parent by `parent_request`, and is number `index` of its children. A time of zero is one
that was not stamped. -/
structure RequestState (σ : Type) where
  requestId : Text
  prompt : Option Text
  promptTokenIds : List TokenId
  kind : RequestKind
  detokenizer : Detokenizer σ
  arrivalTime : ℚ
  numCachedTokens : ℕ
  isPrefilling : Bool
  parentRequest : Option ℕ
  index : ℕ
  firstTokenTime : ℚ
  lastTokenTime : ℚ
  numGenerationTokens : ℕ
  scheduledTime : ℚ
deriving DecidableEq

namespace RequestState

variable {σ : Type} (state : RequestState σ)

def prefilled : RequestState σ := { state with isPrefilling := false }

/-- Fold in new tokens, with the inter-token latencies to observe. The whole gap counts
once, however many tokens it brought. -/
def recordTokens (now : ℚ) (count : ℕ) : List ℚ × RequestState σ :=
  if count = 0 then ([], state)
  else
    (if state.firstTokenTime ≠ 0 ∧ state.lastTokenTime ≠ 0 then [now - state.lastTokenTime]
      else [],
      { state with
        firstTokenTime := if state.firstTokenTime = 0 then now else state.firstTokenTime
        lastTokenTime := now
        numGenerationTokens := state.numGenerationTokens + count })

def timeToFirstToken : ℚ := max 0 (state.firstTokenTime - state.arrivalTime)

/-- What this request contributes to the histograms once it ends; `n` and whether it is
observed are the caller's. -/
def finishedStats (now : ℚ) (finishReason : Option FinishReason) (nParam : ℕ)
    (observeNParam : Bool) : FinishedRequestStats :=
  let e2e := max 0 (now - state.arrivalTime)
  let ttft := state.timeToFirstToken
  let decode := if state.firstTokenTime ≠ 0 then max 0 (now - state.firstTokenTime) else 0
  let numAfterFirst := state.numGenerationTokens - 1
  let queue := if state.scheduledTime ≠ 0 then max 0 (state.scheduledTime - state.arrivalTime)
    else 0
  { finishReason := finishReason
    e2eLatency := e2e
    queueTime := queue
    prefillTime := max 0 (ttft - queue)
    inferenceTime := max 0 (e2e - queue)
    decodeTime := decode
    timeToFirstToken := ttft
    timePerOutputToken := if numAfterFirst ≠ 0 then decode / numAfterFirst else 0
    numPromptTokens := state.promptTokenIds.length
    numGenerationTokens := state.numGenerationTokens
    numCachedTokens := state.numCachedTokens
    maxTokensParam := match state.kind with
      | .generate params => params.maxTokens
      | .pool => none
    nParam := nParam
    observeNParam := observeNParam }

def foldEvent (event : EngineCoreEvent) : RequestState σ :=
  match event.type with
  | .queued => { state with arrivalTime := event.timestamp }
  | .scheduled =>
    if state.scheduledTime = 0 then { state with scheduledTime := event.timestamp } else state
  | .preempted => state

/-- What an output does to a generating request: the state after it, the completion for the
client, why it is finished, and whether the frontend ended it on a stop string. -/
structure Turn (σ : Type) where
  state : RequestState σ
  completion : CompletionOutput
  finishReason : Option FinishReason
  stoppedHere : Bool
  latencies : List ℚ

/-- The part of `process_outputs` that is about the request alone. -/
def turn (decoder : Decoder σ) (params : SamplingParams) (now : ℚ) (output : EngineCoreOutput) :
    Turn σ :=
  let stopTerminated : Bool := output.finishReason = some .stop
  let (stopString, detokenizer) :=
    state.detokenizer.update decoder params.stop output.newTokenIds stopTerminated
  let stoppedHere := stopString.isSome && output.finishReason.isNone
  let finishReason := if stoppedHere then some .stop else output.finishReason
  let state := { state with
    detokenizer := detokenizer
    numCachedTokens := output.numCachedTokens }
  let state := output.events.foldl foldEvent state
  let (latencies, state) := state.recordTokens now output.newTokenIds.length
  let delta : Bool := params.outputKind = .delta
  let (text, detokenizer) :=
    state.detokenizer.getNextOutputText params.stop finishReason.isSome delta
  { state := { state with detokenizer := detokenizer }
    completion := {
      index := state.index
      text := text
      tokenIds := if delta then output.newTokenIds else detokenizer.outputTokenIds
      finishReason := finishReason
      stopReason := match stopString with
        | some stopString => some (.string stopString)
        | none => output.stopReason }
    finishReason := finishReason
    stoppedHere := stoppedHere
    latencies := latencies }

end RequestState

end Pvllm.Frontend
