import Pvllm.Engine.RequestState
import Pvllm.Library.Dict

/-!
Turning engine core output into what the client sees.

A request for several completions fans out into children, each a request of its own to
the engine core; their parent gathers what they produce. Parents are shared: the
children refer to them, and so does the table of the parents in flight. They are kept in
a list that only grows, and a reference is a place in it.
-/

namespace Pvllm.Frontend

def digits (n : ℕ) : Text := Nat.toDigits 10 n

/-! ### Parallel sampling -/

/-- One client request that fans out into `n` engine requests. -/
structure ParentRequest where
  requestId : Text
  samplingParams : SamplingParams
  childRequests : List Text
  outputAggregator : List (Option CompletionOutput)
deriving DecidableEq

namespace ParentRequest

/-- `streaming`: only deltas go out as they arrive. -/
def streaming (parent : ParentRequest) : Bool := parent.samplingParams.outputKind = .delta

def init (requestId : Text) (samplingParams : SamplingParams) : ParentRequest where
  requestId := requestId
  samplingParams := samplingParams
  childRequests := []
  outputAggregator :=
    if samplingParams.outputKind = .delta then [] else List.replicate samplingParams.n none

variable (parent : ParentRequest)

def n : ℕ := parent.samplingParams.n

def childId (requestId : Text) (index : ℕ) : Text := digits index ++ '_' :: requestId

def childParams (index : ℕ) : SamplingParams :=
  { parent.samplingParams with
    n := 1
    seed := parent.samplingParams.seed.map (· + index) }

def discard (childRequestId : Text) : ParentRequest :=
  { parent with childRequests := parent.childRequests.filter (· ≠ childRequestId) }

def childInfo (index : ℕ) : Text × SamplingParams × ParentRequest :=
  let childId := childId parent.requestId index
  (childId, parent.childParams index,
    { parent with childRequests :=
        if childId ∈ parent.childRequests then parent.childRequests
        else parent.childRequests ++ [childId] })

/-- Fold one child's output in: what the client should see now, and whether the parent is
finished. -/
def collect (childRequestId : Text) (output : CompletionOutput) :
    List CompletionOutput × Bool × ParentRequest :=
  let alreadyReturned : Bool :=
    output.finishReason.isSome && !parent.childRequests.contains childRequestId
  let parent := if output.finishReason.isSome then parent.discard childRequestId else parent
  if parent.streaming then
    (if alreadyReturned then [] else [output], parent.childRequests.isEmpty, parent)
  else
    let parent := { parent with
      outputAggregator := parent.outputAggregator.set output.index (some output) }
    (if parent.childRequests.isEmpty then parent.outputAggregator.filterMap id else [],
      parent.childRequests.isEmpty, parent)

end ParentRequest

/-! ### The output processor -/

/-- How a tokenizer makes text: of the next token, and the state a prompt leaves, which it
may fail to make. -/
structure Detokenizing (σ : Type) extends Decoder σ where
  convertPrompt : List TokenId → Except PyError σ

/-- Frontend state: the requests in flight by the engine's ids, the parents in flight by the
client's, and the requests the frontend ended on a stop string. -/
structure OutputProcessor (σ : Type) where
  requestStates : Dict Text (RequestState σ)
  parentRequests : Dict Text ℕ
  parents : List ParentRequest
  stoppedByString : List Text

namespace OutputProcessor

def init (σ : Type) : OutputProcessor σ := ⟨.empty, .empty, [], []⟩

variable {σ : Type} (detokenizing : Detokenizing σ) (processor : OutputProcessor σ)

/-- The arguments of `add_request`. -/
structure AddArgs where
  requestId : Text
  prompt : Option Text
  promptTokenIds : List TokenId
  kind : RequestKind
  arrivalTime : ℚ
  parentRequest : Option ℕ
  index : ℕ
deriving DecidableEq

def newParent (requestId : Text) (params : SamplingParams) : ℕ × OutputProcessor σ :=
  (processor.parents.length,
    { processor with parents := processor.parents ++ [.init requestId params] })

/-- What is in flight under a parent's id, once a child of it is added. -/
def register (parentRequest : Option ℕ) : Dict Text ℕ :=
  match parentRequest with
  | none => processor.parentRequests
  | some ref =>
    match processor.parents[ref]? with
    | none => processor.parentRequests
    | some parent => processor.parentRequests.store parent.requestId ref

def AddArgs.state (args : AddArgs) (decoderState : σ) : RequestState σ where
  requestId := args.requestId
  prompt := args.prompt
  promptTokenIds := args.promptTokenIds
  kind := args.kind
  detokenizer := .init args.promptTokenIds decoderState
  arrivalTime := args.arrivalTime
  numCachedTokens := 0
  isPrefilling := true
  parentRequest := args.parentRequest
  index := args.index
  firstTokenTime := 0
  lastTokenTime := 0
  numGenerationTokens := 0
  scheduledTime := 0

def addRequest (args : AddArgs) : Except PyError (OutputProcessor σ) :=
  if (processor.requestStates.find args.requestId).isSome then
    .error (.valueError s!"request '{String.ofList args.requestId}' already exists")
  else
    match detokenizing.convertPrompt args.promptTokenIds with
    | .error e => .error e
    | .ok decoderState => .ok { processor with
        requestStates := processor.requestStates.store args.requestId (args.state decoderState)
        parentRequests := processor.register args.parentRequest }

/-- Drop one id: a request in flight, or a parent with its children. Answers what the engine
core should abort. -/
def abortRequest (requestId : Text) : List Text × OutputProcessor σ :=
  match processor.requestStates.find requestId with
  | some state =>
    let processor := { processor with
      requestStates := processor.requestStates.delete requestId }
    match state.parentRequest with
    | none => ([requestId], processor)
    | some ref =>
      let processor := { processor with
        parents := processor.parents.modify ref (·.discard requestId) }
      match processor.parents[ref]? with
      | none => ([requestId], processor)
      | some parent =>
        ([requestId],
          if parent.childRequests.isEmpty then
            { processor with
              parentRequests := processor.parentRequests.delete parent.requestId }
          else processor)
  | none =>
    match processor.parentRequests.find requestId with
    | none => ([], processor)
    | some ref =>
      let processor := { processor with
        parentRequests := processor.parentRequests.delete requestId }
      match processor.parents[ref]? with
      | none => ([], processor)
      | some parent =>
        (parent.childRequests.filter fun childId =>
            (processor.requestStates.find childId).isSome,
          { processor with
            requestStates := parent.childRequests.foldl Dict.delete processor.requestStates })

def abortRequests : List Text → OutputProcessor σ → List Text × OutputProcessor σ
  | [], processor => ([], processor)
  | requestId :: rest, processor =>
    let (first, processor) := processor.abortRequest requestId
    let (toAbort, processor) := abortRequests rest processor
    (first ++ toAbort, processor)

/-- Drop a finished request's frontend state and record what it contributed. -/
def retire (stats : IterationStats) (state : RequestState σ) (requestId : Text) (now : ℚ)
    (finishReason : Option FinishReason) : OutputProcessor σ × IterationStats :=
  let parent := state.parentRequest.bind (processor.parents[·]?)
  let lastOfItsParent : Bool := parent.all (·.childRequests.isEmpty)
  ({ processor with
      requestStates := processor.requestStates.delete requestId
      parentRequests := match parent with
        | none => processor.parentRequests
        | some parent =>
          if lastOfItsParent then processor.parentRequests.delete parent.requestId
          else processor.parentRequests },
    { stats with
      finishedRequests := stats.finishedRequests ++ [state.finishedStats now finishReason
        (match parent with
          | none => 1
          | some parent => parent.n) lastOfItsParent] })

/-- Gather a completion: what goes out, under which id, and whether that is the last. -/
def gather (state : RequestState σ) (requestId : Text) (completion : CompletionOutput) :
    List CompletionOutput × Text × Bool × OutputProcessor σ :=
  let finished := completion.finishReason.isSome
  match state.parentRequest with
  | none => ([completion], requestId, finished, processor)
  | some ref =>
    match processor.parents[ref]? with
    | none => ([completion], requestId, finished, processor)
    | some parent =>
      let (completions, parentFinished, parent) := parent.collect requestId completion
      (completions, parent.requestId, parentFinished,
        { processor with parents := processor.parents.set ref parent })

/-- The prompt is charged to the step that delivers a request's first output. -/
def chargePrompt (stats : IterationStats) (state : RequestState σ) (output : EngineCoreOutput) :
    IterationStats :=
  if state.isPrefilling then
    { stats with
      numPromptTokens := stats.numPromptTokens + state.promptTokenIds.length
      numCachedPromptTokens := stats.numCachedPromptTokens + output.numCachedTokens }
  else stats

def chargeTurn (stats : IterationStats) (turn : RequestState.Turn σ) (numNew : ℕ) :
    IterationStats :=
  { stats with
    numGenerationTokens := stats.numGenerationTokens + numNew
    interTokenLatencies := stats.interTokenLatencies ++ turn.latencies
    timeToFirstTokens :=
      if numNew ≠ 0 ∧ turn.state.numGenerationTokens = numNew then
        stats.timeToFirstTokens ++ [turn.state.timeToFirstToken]
      else stats.timeToFirstTokens }

def recordTurn (requestId : Text) (turn : RequestState.Turn σ) : OutputProcessor σ :=
  { processor with
    requestStates := processor.requestStates.store requestId turn.state
    stoppedByString := processor.stoppedByString ++
      if turn.stoppedHere then [requestId] else [] }

/-- The loop body of `process_outputs`: one output. -/
def processOutput (now : ℚ) (stats : IterationStats) (output : EngineCoreOutput) :
    List ClientOutput × OutputProcessor σ × IterationStats :=
  match processor.requestStates.find output.requestId with
  | none => ([], processor, stats)
  | some state =>
    let stats := chargePrompt stats state output
    match state.kind with
    | .pool =>
      let processor := { processor with
        requestStates := processor.requestStates.store output.requestId state.prefilled }
      match output.poolingOutput with
      | none => ([], processor, stats)
      | some data =>
        ([.pooling ⟨output.requestId, data, state.promptTokenIds, true⟩],
          processor.retire stats state.prefilled output.requestId now output.finishReason)
    | .generate params =>
      let turn := state.prefilled.turn detokenizing.toDecoder params now output
      let stats := chargeTurn stats turn output.newTokenIds.length
      let processor := processor.recordTurn output.requestId turn
      let (completions, reportId, reportFinished, processor) :=
        processor.gather turn.state output.requestId turn.completion
      (if completions.isEmpty && !reportFinished then []
        else [.request ⟨reportId, turn.state.prompt, turn.state.promptTokenIds, completions,
          reportFinished, turn.state.numCachedTokens⟩],
        if turn.finishReason.isSome then
          processor.retire stats turn.state output.requestId now turn.finishReason
        else (processor, stats))

/-- Fold one step's outputs into what the clients see, and time them. -/
def processOutputs (now : ℚ) : List EngineCoreOutput → OutputProcessor σ → IterationStats →
    List ClientOutput × OutputProcessor σ × IterationStats
  | [], processor, stats => ([], processor, stats)
  | output :: rest, processor, stats =>
    let (first, processor, stats) := processor.processOutput detokenizing now stats output
    let (outputs, processor, stats) := processOutputs now rest processor stats
    (first ++ outputs, processor, stats)

def takeStoppedByString : List Text × OutputProcessor σ :=
  (processor.stoppedByString, { processor with stoppedByString := [] })

end OutputProcessor

end Pvllm.Frontend
