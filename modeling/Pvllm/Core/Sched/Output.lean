import Pvllm.KVTransfer.SimConnector

/-!
What crosses between the scheduler and the worker, and what the engine hands to
its clients.
-/

namespace Pvllm

/-- A request the worker has never seen, or has discarded. -/
structure NewRequestData where
  reqId : RequestId
  promptTokenIds : List TokenId
  mmFeatures : List MultiModalFeatureSpec
  samplingParams : Option SamplingParams
  blockIds : List (List BlockId)
  numComputedTokens : ℕ
  loraRequest : Option LoRARequest
  usePooling : Bool
  prefillTokenIds : List TokenId
deriving Repr, DecidableEq

def NewRequestData.fromRequest {H : Type} (request : Request H) (blockIds : List (List BlockId)) :
    NewRequestData where
  reqId := request.requestId
  promptTokenIds := request.promptTokenIds
  mmFeatures := request.mmFeatures
  samplingParams := request.samplingParams
  blockIds := blockIds
  numComputedTokens := request.numComputedTokens
  loraRequest := request.loraRequest
  usePooling := request.usePooling
  prefillTokenIds := request.allTokenIds

/-- Requests the worker knows, as parallel lists. -/
structure CachedRequestData where
  reqIds : List RequestId
  resumedReqIds : List RequestId
  newTokenIds : List (List TokenId)
  newBlockIds : List (Option (List (List BlockId)))
  numComputedTokens : List ℕ
  numOutputTokens : List ℕ
deriving Repr, DecidableEq

structure SchedulerOutput where
  scheduledNewReqs : List NewRequestData
  scheduledCachedReqs : CachedRequestData
  numScheduledTokens : Dict RequestId ℕ
  totalNumScheduledTokens : ℕ
  scheduledSpecDecodeTokens : Dict RequestId (List TokenId)
  scheduledEncoderInputs : Dict RequestId (List ℕ)
  numCommonPrefixBlocks : List ℕ
  finishedReqIds : List RequestId
  freeEncoderMmHashes : List String
  preemptedReqIds : Option (List RequestId)
  hasStructuredOutputRequests : Bool
  structuredOutputRequestIds : Dict RequestId ℕ
  kvConnectorMetadata : Option KVConnectorMetadata

/-- A pooled vector, in fixed point. -/
abbrev PoolingOutput := List ℤ

/-- What the worker returns for a step. -/
structure ModelRunnerOutput where
  reqIds : List RequestId
  reqIdToIndex : Dict RequestId ℕ
  sampledTokenIds : List (List TokenId)
  specTokenIds : Option (List (List TokenId))
  poolerOutput : Option (List (Option PoolingOutput))

/-- One request's result from one step. -/
structure EngineCoreOutput where
  requestId : RequestId
  newTokenIds : List TokenId
  finishReason : Option FinishReason
  stopReason : Option TokenId
  numCachedTokens : ℕ
  poolingOutput : Option PoolingOutput
deriving Repr, DecidableEq

end Pvllm
