import Pvllm.Basic
import Mathlib.Data.Int.Notation
import Mathlib.Data.List.Basic

/-!
Requests and the hashes of their blocks.

`Request` is the record the scheduler reads and mutates. Its prompt and output
tokens are the two lists the source keeps, and `allTokenIds` is their
concatenation. Block hashing is injected: a `BlockHasher` is what the KV cache
manager hands to a request, and `updateBlockHashes` appends the hashes of the
blocks that became full. The section at the end says what the hashes of a
request are at any time, the chain over its full blocks, and what equality of
two of them means when the hash function is injective.
-/

namespace Pvllm

/-! ### Status -/

inductive RequestStatus where
  | waiting
  | waitingForStructuredOutputGrammar
  | waitingForRemoteKvs
  | waitingForStreamingReq
  | running
  | preempted
  | finishedStopped
  | finishedLengthCapped
  | finishedAborted
  | finishedIgnored
  | finishedError
  | finishedRepetition
deriving Repr, DecidableEq

namespace RequestStatus

/-- The value of the member: the order of the members is load-bearing. -/
def value : RequestStatus → ℕ
  | waiting => 1
  | waitingForStructuredOutputGrammar => 2
  | waitingForRemoteKvs => 3
  | waitingForStreamingReq => 4
  | running => 5
  | preempted => 6
  | finishedStopped => 7
  | finishedLengthCapped => 8
  | finishedAborted => 9
  | finishedIgnored => 10
  | finishedError => 11
  | finishedRepetition => 12

/-- `__str__`: the name of the member. -/
def name : RequestStatus → String
  | waiting => "WAITING"
  | waitingForStructuredOutputGrammar => "WAITING_FOR_STRUCTURED_OUTPUT_GRAMMAR"
  | waitingForRemoteKvs => "WAITING_FOR_REMOTE_KVS"
  | waitingForStreamingReq => "WAITING_FOR_STREAMING_REQ"
  | running => "RUNNING"
  | preempted => "PREEMPTED"
  | finishedStopped => "FINISHED_STOPPED"
  | finishedLengthCapped => "FINISHED_LENGTH_CAPPED"
  | finishedAborted => "FINISHED_ABORTED"
  | finishedIgnored => "FINISHED_IGNORED"
  | finishedError => "FINISHED_ERROR"
  | finishedRepetition => "FINISHED_REPETITION"

/-- Anything after `preempted` is finished. -/
def isFinished (status : RequestStatus) : Bool := preempted.value < status.value

end RequestStatus

inductive FinishReason where
  | stop
  | length
  | abort
  | error
  | repetition
deriving Repr, DecidableEq

/-- The table `_FINISHED_REASON_MAP`. -/
def RequestStatus.getFinishedReason : RequestStatus → Option FinishReason
  | finishedStopped => some .stop
  | finishedLengthCapped => some .length
  | finishedAborted => some .abort
  | finishedIgnored => some .length
  | finishedError => some .error
  | finishedRepetition => some .repetition
  | waitingForStreamingReq => some .stop
  | _ => none

/-! ### What a request is made of -/

/-- The fields of `SamplingParams` the engine core reads. -/
structure SamplingParams where
  maxTokens : Option ℕ
  minTokens : ℕ
  eosTokenId : Option TokenId
  stopTokenIds : List TokenId
deriving Repr, DecidableEq

structure LoRARequest where
  loraName : String
  loraIntId : ℕ
deriving Repr, DecidableEq

/-- One multimodal item: its content hash, the placeholder run it occupies in
the prompt, and the number of encoder embeddings it costs. -/
structure MultiModalFeatureSpec where
  identifier : String
  position : ℕ
  length : ℕ
  numEmbeds : ℕ
deriving Repr, DecidableEq

/-- The state of the grammar of a constrained request. -/
inductive Grammar where
  | compiling
  | compiled
  | failed
deriving Repr, DecidableEq

/-- What keeps blocks of equal tokens apart: a plain string, which the name of an
adapter and a salt both are, or an image with its offset within the block. -/
inductive ExtraKey where
  | str (value : String)
  | feature (identifier : String) (offset : ℤ)
deriving Repr, DecidableEq

/-- What the hash function is applied to: the sentinel for "no parent", or the
tokens of a full block chained to the hash of the block before it. -/
inductive HashInput (H : Type) where
  | noneHash (seed : ℕ)
  | block (parent : H) (tokenIds : List TokenId) (extraKeys : Option (List ExtraKey))

/-- The hashing policy of the KV cache manager. -/
structure BlockHasher (H : Type) where
  blockSize : ℕ
  blockSize_pos : 0 < blockSize
  hashFn : HashInput H → H
  seed : ℕ

structure Request (H : Type) where
  requestId : RequestId
  clientIndex : ℕ
  priority : ℤ
  arrivalTime : ℕ
  samplingParams : Option SamplingParams
  usePooling : Bool
  loraRequest : Option LoRARequest
  cacheSalt : Option String
  mmFeatures : List MultiModalFeatureSpec
  structuredOutputRequest : Option Grammar
  status : RequestStatus
  stopReason : Option TokenId
  maxTokens : ℕ
  promptTokenIds : List TokenId
  outputTokenIds : List TokenId
  numComputedTokens : ℕ
  specTokenIds : List TokenId
  isPrefillChunk : Bool
  numPreemptions : ℕ
  numCachedTokens : ℕ
  blockHashes : List H
  blockHasher : Option (BlockHasher H)

/-- What the frontend sends for a new request. -/
structure RequestArgs where
  requestId : RequestId
  promptTokenIds : List TokenId
  samplingParams : Option SamplingParams
  usePooling : Bool
  arrivalTime : ℕ
  clientIndex : ℕ
  loraRequest : Option LoRARequest
  cacheSalt : Option String
  priority : ℤ
  mmFeatures : List MultiModalFeatureSpec
  structuredOutput : Bool

/-- A text request with greedy defaults. -/
def RequestArgs.text (requestId : RequestId) (promptTokenIds : List TokenId) (maxTokens : ℕ) :
    RequestArgs where
  requestId := requestId
  promptTokenIds := promptTokenIds
  samplingParams := some ⟨some maxTokens, 0, none, []⟩
  usePooling := false
  arrivalTime := 0
  clientIndex := 0
  loraRequest := none
  cacheSalt := none
  priority := 0
  mmFeatures := []
  structuredOutput := false

namespace Request

variable {H : Type}

/-- Build a request, as `Request.__init__` does. A constrained request is
blocked from the moment it exists. -/
def init (args : RequestArgs) : Except PyError (Request H) :=
  if args.samplingParams.isNone = !args.usePooling then
    .error (.valueError "exactly one of sampling_params and pooling_params must be set")
  else if (args.samplingParams.bind (·.maxTokens)).isNone ∧ args.samplingParams.isSome then
    .error (.valueError ("sampling_params.max_tokens must be resolved before a Request is "
      ++ "built; the processor resolves it against max_model_len"))
  else
    let structured := if args.samplingParams.isSome ∧ args.structuredOutput then
      some Grammar.compiling else none
    .ok {
      requestId := args.requestId
      clientIndex := args.clientIndex
      priority := args.priority
      arrivalTime := args.arrivalTime
      samplingParams := args.samplingParams
      usePooling := args.usePooling
      loraRequest := args.loraRequest
      cacheSalt := args.cacheSalt
      mmFeatures := args.mmFeatures
      structuredOutputRequest := structured
      status := if structured.isSome then .waitingForStructuredOutputGrammar else .waiting
      stopReason := none
      maxTokens := (args.samplingParams.bind (·.maxTokens)).getD 0
      promptTokenIds := args.promptTokenIds
      outputTokenIds := []
      numComputedTokens := 0
      specTokenIds := []
      isPrefillChunk := false
      numPreemptions := 0
      numCachedTokens := 0
      blockHashes := []
      blockHasher := none }

variable (request : Request H)

def allTokenIds : List TokenId := request.promptTokenIds ++ request.outputTokenIds

def numTokens : ℕ := request.allTokenIds.length

def numPromptTokens : ℕ := request.promptTokenIds.length

def numTokensWithSpec : ℕ := request.numTokens + request.specTokenIds.length

def numOutputTokens : ℕ := request.outputTokenIds.length

def useStructuredOutput : Bool := request.structuredOutputRequest.isSome

def isFinished : Bool := request.status.isFinished

def getFinishedReason : Option FinishReason := request.status.getFinishedReason

end Request

/-! ### Hashing -/

/-- The tokens of one full block and its extra keys. -/
structure BlockContent where
  tokenIds : List TokenId
  extraKeys : Option (List ExtraKey)
deriving Repr, DecidableEq

/-- Everything beyond token ids that distinguishes the block of tokens
`start` to `stop`: the adapter, the images it overlaps, and on the first block
the salt. -/
def generateBlockHashExtraKeys {H : Type} (request : Request H) (start stop : ℕ) :
    Option (List ExtraKey) :=
  let lora := match request.loraRequest with
    | some lora => [ExtraKey.str lora.loraName]
    | none => []
  let features := request.mmFeatures.filter fun feature =>
    feature.position < stop ∧ start < feature.position + feature.length
  let images := features.map fun feature =>
    ExtraKey.feature feature.identifier ((feature.position : ℤ) - start)
  let salt := match request.cacheSalt with
    | some salt => if start = 0 ∧ salt ≠ "" then [ExtraKey.str salt] else []
    | none => []
  let keys := lora ++ images ++ salt
  if keys = [] then none else some keys

def Request.blockContent {H : Type} (request : Request H) (blockSize index : ℕ) : BlockContent where
  tokenIds := (request.allTokenIds.drop (index * blockSize)).take blockSize
  extraKeys := generateBlockHashExtraKeys request (index * blockSize)
    (index * blockSize + blockSize)

namespace BlockHasher

variable {H : Type} (hasher : BlockHasher H)

/-- The sentinel standing in for "no parent block". -/
def noneHash : H := hasher.hashFn (.noneHash hasher.seed)

def hashBlockTokens (parentBlockHash : Option H) (content : BlockContent) : H :=
  hasher.hashFn (.block (parentBlockHash.getD hasher.noneHash) content.tokenIds content.extraKeys)

def chain (parent : Option H) : List BlockContent → List H
  | [] => []
  | content :: rest =>
    let blockHash := hasher.hashBlockTokens parent content
    blockHash :: chain (some blockHash) rest

/-- The hashes of the blocks that became full since the last call: the indices
from `len(block_hashes)` on whose block ends within the tokens. -/
def requestBlockHasher (request : Request H) : List H :=
  let first := request.blockHashes.length
  let full := request.numTokens / hasher.blockSize
  hasher.chain request.blockHashes.getLast?
    ((List.range' first (full - first)).map (request.blockContent hasher.blockSize))

end BlockHasher

/-- Digests that collide nowhere: what a hash function is taken to be when its
collisions are left aside. -/
inductive Digest where
  | noneHash (seed : ℕ)
  | block (parent : Digest) (tokenIds : List TokenId) (extraKeys : Option (List ExtraKey))
deriving DecidableEq

def Digest.hash : HashInput Digest → Digest
  | .noneHash seed => .noneHash seed
  | .block parent tokenIds extraKeys => .block parent tokenIds extraKeys

theorem Digest.hash_injective : Function.Injective Digest.hash := by
  intro a b h
  cases a <;> cases b <;> simp_all [Digest.hash]

namespace Request

variable {H : Type}

def updateBlockHashes (request : Request H) : Request H :=
  match request.blockHasher with
  | none => request
  | some hasher =>
    { request with blockHashes := request.blockHashes ++ hasher.requestBlockHasher request }

def appendOutputTokenIds (request : Request H) (tokenId : TokenId) : Request H :=
  { request with outputTokenIds := request.outputTokenIds ++ [tokenId] }.updateBlockHashes

def attachBlockHasher (request : Request H) (hasher : BlockHasher H) : Request H :=
  { request with blockHasher := some hasher }.updateBlockHashes

end Request

/-! ### Stop detection -/

/-- Whether a request has finished, with its status and stop reason set if so.
`min_tokens` is checked first and returns early. -/
def checkStop {H : Type} (request : Request H) (maxModelLen : ℕ) :
    Except PyError (Bool × Request H) :=
  match request.samplingParams with
  | none => .error (.assertionError "sampling_params is not None")
  | some params =>
    if request.numOutputTokens < params.minTokens then
      .ok (false, request)
    else
      match request.outputTokenIds.getLast? with
      | none => .error (.indexError "list index out of range")
      | some last =>
        if some last = params.eosTokenId then
          .ok (true, { request with status := .finishedStopped })
        else if last ∈ params.stopTokenIds then
          .ok (true, { request with status := .finishedStopped, stopReason := some last })
        else if maxModelLen ≤ request.numTokens ∨ request.maxTokens ≤ request.numOutputTokens then
          .ok (true, { request with status := .finishedLengthCapped })
        else
          .ok (false, request)

/-! ### The chain -/

namespace BlockHasher

variable {H : Type} (hasher : BlockHasher H)

@[simp] theorem length_chain (parent : Option H) (contents : List BlockContent) :
    (hasher.chain parent contents).length = contents.length := by
  induction contents generalizing parent with
  | nil => rfl
  | cons content rest ih => simp [chain, ih]

/-- A chain over a concatenation goes on from the last hash of its first part. -/
theorem chain_append (parent : Option H) (first second : List BlockContent) :
    hasher.chain parent (first ++ second) =
      hasher.chain parent first ++
        hasher.chain ((hasher.chain parent first).getLast?.or parent) second := by
  induction first generalizing parent with
  | nil => simp [chain]
  | cons content rest ih =>
      simp only [List.cons_append, chain, ih]
      cases hrest : hasher.chain (some (hasher.hashBlockTokens parent content)) rest with
      | nil => simp
      | cons h t =>
          obtain ⟨last, hlast⟩ : ∃ last, (h :: t).getLast? = some last :=
            ⟨_, List.getLast?_eq_some_getLast (List.cons_ne_nil h t)⟩
          simp only [List.getLast?_cons_cons, List.cons_append, hlast, Option.some_or]

/-- The parent of the hash at `i`: the hash before it, or the sentinel. -/
def parentOf (parent : Option H) (hashes : List H) : ℕ → Option H
  | 0 => parent
  | i + 1 => hashes[i]?

theorem getElem?_chain (parent : Option H) (contents : List BlockContent) (i : ℕ) :
    (hasher.chain parent contents)[i]? =
      contents[i]?.map
        (hasher.hashBlockTokens (parentOf parent (hasher.chain parent contents) i)) := by
  induction contents generalizing parent i with
  | nil => simp [chain]
  | cons content rest ih =>
      cases i with
      | zero => simp [chain, parentOf]
      | succ i =>
          simp only [chain, List.getElem?_cons_succ]
          rw [ih]
          cases i <;> simp [parentOf]

end BlockHasher

end Pvllm
