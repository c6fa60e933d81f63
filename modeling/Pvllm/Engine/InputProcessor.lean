import Pvllm.Core.Request
import Mathlib.Algebra.Order.Ring.Rat

/-!
Turning a user request into a request for the engine core.

`SamplingParamsArgs` is what the client builds, checked as it is built;
`processInputs` validates the prompt against the context window, resolves an
open `max_tokens` to what the window leaves, and binds the tokenizer's EOS.
`Accepts` is what comes out of both, and `Accepts.fits` what it guarantees.
-/

namespace Pvllm

/-- A float: its value, and the text it prints as. -/
structure PyFloat where
  value : ℚ
  text : String
deriving DecidableEq

instance : ToString PyFloat := ⟨PyFloat.text⟩

/-- The parameters for text generation, as the client gives them. -/
structure SamplingParamsArgs where
  n : ℤ
  bestOf : Option ℤ
  presencePenalty : PyFloat
  frequencyPenalty : PyFloat
  repetitionPenalty : PyFloat
  temperature : PyFloat
  topP : PyFloat
  topK : ℤ
  minP : PyFloat
  stop : List String
  stopTokenIds : List TokenId
  ignoreEos : Bool
  maxTokens : Option ℤ
  minTokens : ℤ
  logprobs : Option ℤ
  promptLogprobs : Option ℤ
  detokenize : Bool
  allowedTokenIds : Option (List TokenId)
  structuredOutputs : Bool
deriving DecidableEq

namespace SamplingParamsArgs

/-- The defaults of the class, but for the two bounds on the output. -/
def ofBounds (maxTokens : Option ℤ) (minTokens : ℤ) : SamplingParamsArgs where
  n := 1
  bestOf := none
  presencePenalty := ⟨0, "0.0"⟩
  frequencyPenalty := ⟨0, "0.0"⟩
  repetitionPenalty := ⟨1, "1.0"⟩
  temperature := ⟨1, "1.0"⟩
  topP := ⟨1, "1.0"⟩
  topK := 0
  minP := ⟨0, "0.0"⟩
  stop := []
  stopTokenIds := []
  ignoreEos := false
  maxTokens := maxTokens
  minTokens := minTokens
  logprobs := none
  promptLogprobs := none
  detokenize := true
  allowedTokenIds := none
  structuredOutputs := false

variable (params : SamplingParamsArgs)

/-- `None` prints as such. -/
def printed (n : Option ℤ) : String :=
  match n with
  | none => "None"
  | some n => s!"{n}"

/-- The checks of `_verify_args`, in order. -/
def argChecks : List (Bool × PyError) := [
  (params.n < 1, .valueError s!"n must be at least 1, got {params.n}."),
  (params.presencePenalty.value < -2 || 2 < params.presencePenalty.value,
    .valueError s!"presence_penalty must be in [-2, 2], got {params.presencePenalty}."),
  (params.frequencyPenalty.value < -2 || 2 < params.frequencyPenalty.value,
    .valueError s!"frequency_penalty must be in [-2, 2], got {params.frequencyPenalty}."),
  (params.repetitionPenalty.value ≤ 0,
    .valueError s!"repetition_penalty must be greater than zero, got {params.repetitionPenalty}."),
  (params.temperature.value < 0,
    .valueError s!"temperature must be non-negative, got {params.temperature}."),
  (params.topP.value ≤ 0 || 1 < params.topP.value,
    .valueError s!"top_p must be in (0, 1], got {params.topP}."),
  (params.topK < 0, .valueError s!"top_k must be 0 (disable) or greater, got {params.topK}."),
  (params.minP.value < 0 || 1 < params.minP.value,
    .valueError s!"min_p must be in [0, 1], got {params.minP}."),
  (params.maxTokens.any (· < 1),
    .valueError s!"max_tokens must be at least 1, got {printed params.maxTokens}."),
  (params.minTokens < 0, .valueError s!"min_tokens must be non-negative, got {params.minTokens}."),
  (params.maxTokens.any (· < params.minTokens),
    .valueError (s!"min_tokens ({params.minTokens}) must not be greater than max_tokens "
      ++ s!"({printed params.maxTokens}).")),
  (params.logprobs.any (· < 0),
    .valueError s!"logprobs must be non-negative, got {printed params.logprobs}."),
  (params.promptLogprobs.any (· < 0),
    .valueError s!"prompt_logprobs must be non-negative, got {printed params.promptLogprobs}."),
  (params.stop ≠ [] && !params.detokenize,
    .valueError ("stop strings are only supported when detokenize is True. Set "
      ++ "detokenize=True to use stop."))]

def verifyArgs : Except PyError Unit := raiseFirst params.argChecks

/-- Below this a temperature counts as zero: `_SAMPLING_EPS`. -/
def samplingEps : ℚ := 1 / 100000

/-- Build the parameters: check them, and turn a near-zero temperature greedy. -/
def postInit : Except PyError SamplingParamsArgs := do
  raiseFirst [(params.bestOf.any (· ≠ params.n), .valueError
    (s!"best_of ({printed params.bestOf}) must equal n ({params.n}); vLLM removed "
      ++ "support for best_of > n"))]
  params.verifyArgs
  return if params.temperature.value < samplingEps then
    { params with
      temperature := ⟨0, "0.0"⟩
      topP := ⟨1, "1.0"⟩
      topK := 0
      minP := ⟨0, "0.0"⟩ }
  else params

end SamplingParamsArgs

structure Tokenizer where
  encode : String → List TokenId
  eosTokenId : Option TokenId

/-- A prompt: text, or token ids supplied directly. -/
inductive Prompt where
  | text (text : String)
  | tokens (tokenIds : List TokenId)
deriving DecidableEq

structure InputProcessor where
  tokenizer : Tokenizer
  maxModelLen : ℕ
  maxLogprobs : ℤ
  loraEnabled : Bool

/-- The arguments of `process_inputs`, and the arrival time the core stamps. -/
structure ProcessArgs where
  requestId : RequestId
  prompt : Prompt
  samplingParams : Option SamplingParamsArgs
  poolingParams : Bool
  clientIndex : ℕ
  priority : ℤ
  cacheSalt : Option String
  loraRequest : Option LoRARequest
  mmFeatures : List MultiModalFeatureSpec
  arrivalTime : ℕ

namespace InputProcessor

variable (processor : InputProcessor)

def validateParams (params : SamplingParamsArgs) : Except PyError Unit :=
  let check (name : String) (value : Option ℤ) : Bool × PyError :=
    (value.any (processor.maxLogprobs < ·), .valueError
      (s!"Requested {name} of {SamplingParamsArgs.printed value} exceeds the max allowed value of "
        ++ s!"{processor.maxLogprobs}. Raise --max-logprobs to allow it."))
  raiseFirst [
    check "logprobs" params.logprobs,
    check "prompt_logprobs" params.promptLogprobs,
    (params.allowedTokenIds.isSome, .notImplementedError
      ("allowed_token_ids is not modeled; it constrains sampling, and the "
        ++ "sampler's effects reach only as far as the PRNG draw (NG3)"))]

/-- The prompt fits the window, and the output too; an open `max_tokens` becomes
what the window leaves. -/
def validatePromptLength (promptLen : ℕ) (params : SamplingParamsArgs) :
    Except PyError SamplingParamsArgs := do
  raiseFirst [
    (promptLen = 0, .valueError "Prompt cannot be empty."),
    (processor.maxModelLen ≤ promptLen, .valueError
      (s!"This model's maximum context length is {processor.maxModelLen} tokens. "
        ++ s!"However, you requested {promptLen} tokens in the messages. "
        ++ "Please reduce the length of the messages."))]
  let remaining : ℤ := processor.maxModelLen - promptLen
  match params.maxTokens with
  | none => return { params with maxTokens := some remaining }
  | some maxTokens =>
    raiseFirst [(remaining < maxTokens, .valueError
      (s!"This model's maximum context length is {processor.maxModelLen} tokens. "
        ++ s!"However, you requested {promptLen + maxTokens} "
        ++ s!"tokens ({promptLen} in the messages, "
        ++ s!"{maxTokens} in the completion). "
        ++ "Please reduce the length of the messages or completion."))]
    return params

def validatePoolingPromptLength (promptLen : ℕ) : Except PyError Unit :=
  raiseFirst [
    (promptLen = 0, .valueError "Prompt cannot be empty."),
    (processor.maxModelLen < promptLen, .valueError
      (s!"This model's maximum context length is {processor.maxModelLen} tokens. "
        ++ s!"However, you requested {promptLen} tokens in the input "
        ++ "for embedding generation. Please reduce the length of the input."))]

/-- `update_from_tokenizer`: what the core reads of the parameters, with the EOS
bound unless it is to be ignored. -/
def bind (params : SamplingParamsArgs) : SamplingParams where
  maxTokens := params.maxTokens.map Int.toNat
  minTokens := params.minTokens.toNat
  eosTokenId := if params.ignoreEos then none else processor.tokenizer.eosTokenId
  stopTokenIds := params.stopTokenIds

def processInputs (args : ProcessArgs) : Except PyError RequestArgs := do
  let promptTokenIds := match args.prompt with
    | .text text => processor.tokenizer.encode text
    | .tokens tokenIds => tokenIds
  raiseFirst [(args.samplingParams.isNone = !args.poolingParams,
    .valueError "exactly one of sampling_params and pooling_params must be given")]
  let params ← match args.samplingParams with
    | some params => do
      processor.validateParams params
      let params ← processor.validatePromptLength promptTokenIds.length params
      pure (some params)
    | none => do
      processor.validatePoolingPromptLength promptTokenIds.length
      pure none
  raiseFirst [(args.loraRequest.isSome && !processor.loraEnabled, .valueError
    ("a lora_request was given but LoRA is not enabled; start the engine "
      ++ "with enable_lora=True (adapters cost KV pool memory and max_loras "
      ++ "bounds how many are resident, so neither is inferred)"))]
  return {
    requestId := args.requestId
    promptTokenIds := promptTokenIds
    samplingParams := params.map processor.bind
    usePooling := args.poolingParams
    arrivalTime := args.arrivalTime
    clientIndex := args.clientIndex
    loraRequest := args.loraRequest
    cacheSalt := args.cacheSalt
    priority := args.priority
    mmFeatures := args.mmFeatures
    structuredOutput := params.any (·.structuredOutputs) }

/-- The processor accepts a request: parameters a client could build go in, and
these arguments come out. -/
def Accepts (request : RequestArgs) : Prop :=
  ∃ args : ProcessArgs, (∀ params, args.samplingParams = some params →
    ∃ given : SamplingParamsArgs, given.postInit = .ok params) ∧
      processor.processInputs args = .ok request

/-! ### What is accepted fits -/

variable {processor}

theorem validatePromptLength_ok {promptLen : ℕ} {params params' : SamplingParamsArgs}
    (h : processor.validatePromptLength promptLen params = .ok params') :
    0 < promptLen ∧ promptLen < processor.maxModelLen ∧ ∃ maxTokens : ℤ,
      params' = { params with maxTokens := some maxTokens } ∧
      promptLen + maxTokens ≤ processor.maxModelLen ∧
      (params.maxTokens = none ∧ maxTokens = processor.maxModelLen - promptLen ∨
        params.maxTokens = some maxTokens) := by
  unfold validatePromptLength at h
  obtain ⟨_, hprompt, h⟩ := except_bind_iff.mp h
  rw [raiseFirst_eq_ok] at hprompt
  simp only [List.mem_cons, List.not_mem_nil, or_false, forall_eq_or_imp, forall_eq,
    decide_eq_false_iff_not] at hprompt
  obtain ⟨hsome, hshort⟩ := hprompt
  refine ⟨Nat.pos_of_ne_zero hsome, Nat.not_le.mp hshort, ?_⟩
  cases hmax : params.maxTokens with
  | none =>
      rw [hmax] at h
      obtain rfl := Except.ok.inj h
      exact ⟨_, rfl, by omega, Or.inl ⟨rfl, rfl⟩⟩
  | some maxTokens =>
      rw [hmax] at h
      obtain ⟨_, hfits, h⟩ := except_bind_iff.mp h
      obtain rfl := Except.ok.inj h
      rw [raiseFirst_eq_ok] at hfits
      simp only [List.mem_singleton, forall_eq, decide_eq_false_iff_not] at hfits
      refine ⟨maxTokens, ?_, by omega, Or.inr rfl⟩
      rw [← hmax]

end InputProcessor

/-- A request the engine core can hold: it has a prompt, and its prompt and its
output fit the window together. -/
structure RequestArgs.Fits (maxModelLen : ℕ) (args : RequestArgs) : Prop where
  prompt : args.promptTokenIds ≠ []
  pooling : args.usePooling = true → args.promptTokenIds.length ≤ maxModelLen
  generates : args.usePooling = false → ∃ params maxTokens, args.samplingParams = some params ∧
    params.maxTokens = some maxTokens ∧ 1 ≤ maxTokens ∧
      args.promptTokenIds.length + maxTokens ≤ maxModelLen

/-- The least output asked for is within the greatest, once that is resolved. -/
def RequestArgs.Bounded (args : RequestArgs) : Prop :=
  ∀ params maxTokens, args.samplingParams = some params → params.maxTokens = some maxTokens →
    params.minTokens ≤ maxTokens

/-- Parameters that were built have sound bounds, where both are given. -/
theorem SamplingParamsArgs.postInit_ok {given params : SamplingParamsArgs}
    (h : given.postInit = .ok params) : params.maxTokens = given.maxTokens ∧
      params.minTokens = given.minTokens ∧ 0 ≤ given.minTokens ∧
      ∀ maxTokens, given.maxTokens = some maxTokens →
        1 ≤ maxTokens ∧ given.minTokens ≤ maxTokens := by
  unfold postInit at h
  obtain ⟨_, -, h⟩ := except_bind_iff.mp h
  obtain ⟨_, hargs, h⟩ := except_bind_iff.mp h
  have hchecks := raiseFirst_eq_ok.mp hargs
  have hmax : given.maxTokens.any (· < 1) = false :=
    hchecks _ (List.mem_of_getElem? (i := 8) rfl)
  have hmin : decide (given.minTokens < 0) = false :=
    hchecks _ (List.mem_of_getElem? (i := 9) rfl)
  have hboth : given.maxTokens.any (· < given.minTokens) = false :=
    hchecks _ (List.mem_of_getElem? (i := 10) rfl)
  have hsame : params.maxTokens = given.maxTokens ∧ params.minTokens = given.minTokens := by
    obtain rfl := Except.ok.inj h
    split <;> exact ⟨rfl, rfl⟩
  refine ⟨hsame.1, hsame.2, not_lt.mp (of_decide_eq_false hmin), fun maxTokens hsome => ?_⟩
  rw [hsome] at hmax hboth
  simp only [Option.any_some, decide_eq_false_iff_not, not_lt] at hmax hboth
  exact ⟨hmax, hboth⟩

/-- What the processor lets through fits; and where `max_tokens` was given, the
bounds are in order. -/
theorem InputProcessor.processInputs_ok {processor : InputProcessor} {args : ProcessArgs}
    {request : RequestArgs}
    (hbuilt : ∀ params, args.samplingParams = some params →
      ∃ given : SamplingParamsArgs, given.postInit = .ok params)
    (hok : processor.processInputs args = .ok request) :
    request.Fits processor.maxModelLen ∧
      ((∀ params, args.samplingParams = some params → params.maxTokens ≠ none) →
        request.Bounded) := by
  unfold processInputs at hok
  dsimp only at hok
  generalize (match args.prompt with
    | .text text => processor.tokenizer.encode text
    | .tokens tokenIds => tokenIds) = promptTokenIds at hok
  obtain ⟨_, hexclusive, hok⟩ := except_bind_iff.mp hok
  rw [raiseFirst_eq_ok] at hexclusive
  simp only [List.mem_singleton, forall_eq, decide_eq_false_iff_not] at hexclusive
  cases hsampling : args.samplingParams with
  | none =>
      -- a pooling request: only the prompt has to fit
      rw [hsampling] at hexclusive hok
      obtain ⟨_, hpooling, hok⟩ := except_bind_iff.mp hok
      obtain ⟨_, hnone, hok⟩ := except_bind_iff.mp hok
      obtain rfl := Except.ok.inj hnone
      obtain ⟨_, -, hok⟩ := except_bind_iff.mp hok
      obtain rfl := Except.ok.inj hok
      unfold validatePoolingPromptLength at hpooling
      rw [raiseFirst_eq_ok] at hpooling
      simp only [List.mem_cons, List.not_mem_nil, or_false, forall_eq_or_imp, forall_eq,
        decide_eq_false_iff_not, not_lt] at hpooling
      refine ⟨⟨fun hnil => hpooling.1 ?_, fun _ => hpooling.2, fun hnot => ?_⟩, fun _ => ?_⟩
      · exact List.length_eq_zero_iff.mpr hnil
      · dsimp only at hnot
        rw [hnot] at hexclusive
        exact absurd rfl hexclusive
      · intro params maxTokens hparams
        cases hparams
  | some given =>
      rw [hsampling] at hexclusive hok
      obtain ⟨_, -, hok⟩ := except_bind_iff.mp hok
      obtain ⟨params', hlength, hok⟩ := except_bind_iff.mp hok
      obtain ⟨_, hparams, hok⟩ := except_bind_iff.mp hok
      obtain rfl := Except.ok.inj hparams
      obtain ⟨_, -, hok⟩ := except_bind_iff.mp hok
      obtain rfl := Except.ok.inj hok
      obtain ⟨hsome, hshort, maxTokens, rfl, hfits, horigin⟩ := validatePromptLength_ok hlength
      obtain ⟨origin, hpost⟩ := hbuilt given hsampling
      obtain ⟨hmax, hmin, -, hbounds⟩ := SamplingParamsArgs.postInit_ok hpost
      have hpos : 1 ≤ maxTokens := by
        rcases horigin with ⟨-, rfl⟩ | hgiven
        · omega
        · exact (hbounds maxTokens (hmax ▸ hgiven)).1
      refine ⟨⟨fun hnil => ?_, fun hpools => ?_, fun _ => ?_⟩, fun hclosed => ?_⟩
      · dsimp only at hnil
        rw [hnil] at hsome
        exact absurd hsome (Nat.lt_irrefl 0)
      · dsimp only at hpools
        rw [hpools] at hexclusive
        exact absurd rfl hexclusive
      · refine ⟨_, maxTokens.toNat, rfl, rfl, ?_, ?_⟩
        · omega
        · dsimp only
          omega
      · have hgiven := horigin.resolve_left fun h => hclosed given rfl h.1
        have hle := (hbounds maxTokens (hmax ▸ hgiven)).2
        intro params bound hparams hbound
        obtain rfl := Option.some.inj hparams
        obtain rfl := Option.some.inj hbound
        show given.minTokens.toNat ≤ maxTokens.toNat
        omega

theorem InputProcessor.Accepts.fits {processor : InputProcessor} {request : RequestArgs}
    (h : processor.Accepts request) : request.Fits processor.maxModelLen := by
  obtain ⟨args, hbuilt, hok⟩ := h
  exact (processInputs_ok hbuilt hok).1

end Pvllm
