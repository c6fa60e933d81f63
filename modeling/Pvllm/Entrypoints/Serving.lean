import Pvllm.Engine.Twins
import Mathlib.Data.List.Sort

/-!
Completions and chat, streamed and not.

Both endpoints answer from what `generate` yields. Without streaming the answer is made
of the last output; with it each completion is a chunk of its own, counted as it goes
out, and a chunk with the usage may follow. The two endpoints differ in the shape of a
choice.
-/

namespace Pvllm.Frontend.OpenAI

/-! ### Wire types -/

/-- What every response and every chunk begins with. -/
structure Header where
  id : Text
  created : ℤ
  model : Text
deriving DecidableEq

structure UsageInfo where
  promptTokens : ℕ
  completionTokens : ℕ
  totalTokens : ℕ
  cachedTokens : Option ℕ
deriving DecidableEq

structure CompletionResponseChoice where
  index : ℕ
  text : Text
  finishReason : Option FinishReason
  stopReason : Option StopReason
deriving DecidableEq

structure CompletionResponse where
  header : Header
  choices : List CompletionResponseChoice
  usage : UsageInfo
deriving DecidableEq

structure CompletionResponseStreamChoice where
  index : ℕ
  text : Text
  finishReason : Option FinishReason
  stopReason : Option StopReason
deriving DecidableEq

structure CompletionStreamResponse where
  header : Header
  choices : List CompletionResponseStreamChoice
  usage : Option UsageInfo
deriving DecidableEq

structure ChatMessage where
  role : Text
  content : Option Text
deriving DecidableEq

structure ChatCompletionResponseChoice where
  index : ℕ
  message : ChatMessage
  finishReason : Option FinishReason
  stopReason : Option StopReason
deriving DecidableEq

structure ChatCompletionResponse where
  header : Header
  choices : List ChatCompletionResponseChoice
  usage : UsageInfo
deriving DecidableEq

structure DeltaMessage where
  role : Option Text
  content : Option Text
deriving DecidableEq

structure ChatCompletionResponseStreamChoice where
  index : ℕ
  delta : DeltaMessage
  finishReason : Option FinishReason
  stopReason : Option StopReason
deriving DecidableEq

structure ChatCompletionStreamResponse where
  header : Header
  choices : List ChatCompletionResponseStreamChoice
  usage : Option UsageInfo
deriving DecidableEq

/-- A server-sent event: a chunk, or `[DONE]`. -/
inductive Event (α : Type) where
  | data (chunk : α)
  | done
deriving DecidableEq

/-! ### Without streaming -/

def sortedOutputs (output : RequestOutput) : List CompletionOutput :=
  output.outputs.mergeSort fun a b => a.index ≤ b.index

/-- Every choice's tokens; the prompt counts once. -/
def usageOf (final : RequestOutput) : UsageInfo :=
  let generated := ((sortedOutputs final).map (·.tokenIds.length)).sum
  { promptTokens := final.promptTokenIds.length
    completionTokens := generated
    totalTokens := final.promptTokenIds.length + generated
    cachedTokens := some final.numCachedTokens }

/-- `OpenAIServingCompletion._complete`, from what `generate` yields. -/
def completionComplete (header : Header) (outputs : List RequestOutput) :
    Except String CompletionResponse :=
  match outputs.getLast? with
  | none => .error "The engine produced no output."
  | some final => .ok
    { header
      choices := (sortedOutputs final).map fun item =>
        ⟨item.index, item.text, item.finishReason, item.stopReason⟩
      usage := usageOf final }

/-- `OpenAIServingChat._complete`. -/
def chatComplete (header : Header) (outputs : List RequestOutput) :
    Except String ChatCompletionResponse :=
  match outputs.getLast? with
  | none => .error "The engine produced no output."
  | some final => .ok
    { header
      choices := (sortedOutputs final).map fun item =>
        ⟨item.index, ⟨"assistant".toList, some item.text⟩, item.finishReason, item.stopReason⟩
      usage := usageOf final }

/-! ### With streaming -/

/-- What a stream has counted and sent. -/
structure Streaming (α : Type) where
  numPromptTokens : ℕ
  numCompletionTokens : ℕ
  chunks : List α

namespace Streaming

variable {α : Type} (chunkOf : CompletionOutput → α)

def send (streaming : Streaming α) (completion : CompletionOutput) : Streaming α :=
  { streaming with
    numCompletionTokens := streaming.numCompletionTokens + completion.tokenIds.length
    chunks := streaming.chunks ++ [chunkOf completion] }

def sendAll (streaming : Streaming α) (output : RequestOutput) : Streaming α :=
  output.outputs.foldl (send chunkOf)
    { streaming with numPromptTokens := output.promptTokenIds.length }

/-- The loop over what `generate` yields. -/
def run (outputs : List RequestOutput) : Streaming α := outputs.foldl (sendAll chunkOf) ⟨0, 0, []⟩

def usage (streaming : Streaming α) : UsageInfo where
  promptTokens := streaming.numPromptTokens
  completionTokens := streaming.numCompletionTokens
  totalTokens := streaming.numPromptTokens + streaming.numCompletionTokens
  cachedTokens := none

end Streaming

def completionChunk (header : Header) (completion : CompletionOutput) :
    CompletionStreamResponse where
  header := header
  choices :=
    [⟨completion.index, completion.text, completion.finishReason, completion.stopReason⟩]
  usage := none

/-- `OpenAIServingCompletion._stream`, from what `generate` yields. -/
def completionStream (header : Header) (includeUsage : Bool) (outputs : List RequestOutput) :
    List (Event CompletionStreamResponse) :=
  let streaming := Streaming.run (completionChunk header) outputs
  streaming.chunks.map .data ++
    (if includeUsage then [.data ⟨header, [], some streaming.usage⟩] else []) ++ [.done]

def chatChunk (header : Header) (completion : CompletionOutput) :
    ChatCompletionStreamResponse where
  header := header
  choices := [⟨completion.index, ⟨none, some completion.text⟩, completion.finishReason,
    completion.stopReason⟩]
  usage := none

/-- `OpenAIServingChat._stream`. The first chunk has the roles, and no content. -/
def chatStream (header : Header) (n : ℕ) (includeUsage : Bool) (outputs : List RequestOutput) :
    List (Event ChatCompletionStreamResponse) :=
  let first : ChatCompletionStreamResponse :=
    ⟨header, (List.range n).map fun index =>
      ⟨index, ⟨some "assistant".toList, none⟩, none, none⟩, none⟩
  let streaming := Streaming.run (chatChunk header) outputs
  .data first :: (streaming.chunks.map .data ++
    (if includeUsage then [.data ⟨header, [], some streaming.usage⟩] else []) ++ [.done])

/-! ### What a client reads -/

/-- What a choice says, of a response or of a chunk. -/
structure Piece where
  index : ℕ
  text : Text
  finishReason : Option FinishReason
  stopReason : Option StopReason
deriving DecidableEq

def CompletionResponse.pieces (response : CompletionResponse) : List Piece :=
  response.choices.map fun choice =>
    ⟨choice.index, choice.text, choice.finishReason, choice.stopReason⟩

def CompletionStreamResponse.pieces (chunk : CompletionStreamResponse) : List Piece :=
  chunk.choices.map fun choice =>
    ⟨choice.index, choice.text, choice.finishReason, choice.stopReason⟩

def ChatCompletionResponse.pieces (response : ChatCompletionResponse) : List Piece :=
  response.choices.map fun choice =>
    ⟨choice.index, choice.message.content.getD [], choice.finishReason, choice.stopReason⟩

def ChatCompletionStreamResponse.pieces (chunk : ChatCompletionStreamResponse) : List Piece :=
  chunk.choices.map fun choice =>
    ⟨choice.index, choice.delta.content.getD [], choice.finishReason, choice.stopReason⟩

def chunks {α : Type} (events : List (Event α)) : List α :=
  events.filterMap fun
    | .data chunk => some chunk
    | .done => none

/-- A stream and a response say the same of `n` choices: the pieces of text under an index make
up the text, one of them says how the choice ends, and the usage, if it is sent, is the same. -/
structure Agree (n : ℕ) (includeUsage : Bool) (streamed : List Piece)
    (usages : List UsageInfo) (choices : List Piece) (usage : UsageInfo) : Prop where
  indices : choices.map (·.index) = List.range n
  within : ∀ piece ∈ streamed, piece.index < n
  text : ∀ choice ∈ choices,
    (streamed.filter (·.index = choice.index)).flatMap (·.text) = choice.text
  ends : ∀ choice ∈ choices, ∃ piece,
    streamed.filter (fun piece => piece.index = choice.index ∧ piece.finishReason.isSome) =
      [piece] ∧
    piece.finishReason = choice.finishReason ∧ piece.stopReason = choice.stopReason
  usages : if includeUsage then ∃ sent, usages = [sent] ∧
      sent.promptTokens = usage.promptTokens ∧ sent.completionTokens = usage.completionTokens ∧
      sent.totalTokens = usage.totalTokens
    else usages = []

/-- With these stop strings, in every call of either endpoint, whatever the engine makes and
however it is spread over steps: the stream ends when the response does, and they agree. -/
def ResponsesAgree (stop : StopParams) : Prop :=
  ∀ (σ : Type) (detokenizing : Detokenizing σ) (before : List Call) (requestId : Text)
    (params : SamplingParams) (prompt : Option Text) (promptTokenIds : List TokenId)
    (arrivalTime : ℕ → ℚ) (decoderState : σ) (steps : List EngineStep) (header : Header)
    (includeUsage : Bool),
    let session : Session σ := { (Session.init σ).run detokenizing before with emitted := [] }
    let yielded (kind : RequestOutputKind) :=
      generate (reports requestId ((session.register detokenizing requestId
        { params with outputKind := kind } prompt promptTokenIds arrivalTime).processSteps
          detokenizing steps).emitted)
    params.stop = stop → 1 ≤ params.n → Unused session.processor requestId params.n →
    detokenizing.convertPrompt promptTokenIds = .ok decoderState →
    (yielded .delta).isSome = (yielded .finalOnly).isSome ∧
    ∀ streamed whole, yielded .delta = some streamed → yielded .finalOnly = some whole →
      (∃ response, completionComplete header whole = .ok response ∧
        let sent := chunks (completionStream header includeUsage streamed)
        Agree params.n includeUsage (sent.flatMap (·.pieces)) (sent.filterMap (·.usage))
          response.pieces response.usage) ∧
      ∃ response, chatComplete header whole = .ok response ∧
        let sent := chunks (chatStream header params.n includeUsage streamed)
        Agree params.n includeUsage (sent.flatMap (·.pieces)) (sent.filterMap (·.usage))
          response.pieces response.usage

/-! ### What the loop sends -/

def piece (completion : CompletionOutput) : Piece :=
  ⟨completion.index, completion.text, completion.finishReason, completion.stopReason⟩

namespace Streaming

variable {α : Type} (chunkOf : CompletionOutput → α)

theorem foldl_send (completions : List CompletionOutput) (streaming : Streaming α) :
    completions.foldl (send chunkOf) streaming =
      { streaming with
        numCompletionTokens := streaming.numCompletionTokens +
          (completions.map (·.tokenIds.length)).sum
        chunks := streaming.chunks ++ completions.map chunkOf } := by
  induction completions generalizing streaming with
  | nil => simp
  | cons completion rest ih =>
      rw [List.foldl_cons, ih]
      simp [send, Nat.add_assoc]

theorem foldl_sendAll (outputs : List RequestOutput) (streaming : Streaming α) :
    let sent := outputs.foldl (sendAll chunkOf) streaming
    sent.chunks = streaming.chunks ++ (outputs.flatMap (·.outputs)).map chunkOf ∧
      sent.numCompletionTokens = streaming.numCompletionTokens +
        ((outputs.flatMap (·.outputs)).map (·.tokenIds.length)).sum := by
  induction outputs generalizing streaming with
  | nil => simp
  | cons output rest ih =>
      obtain ⟨hchunks, htokens⟩ := ih (sendAll chunkOf streaming output)
      unfold sendAll at hchunks htokens
      rw [foldl_send] at hchunks htokens
      rw [List.foldl_cons]
      unfold sendAll
      rw [foldl_send]
      refine ⟨hchunks.trans ?_, htokens.trans ?_⟩
      · simp
      · simp [Nat.add_assoc]

theorem run_chunks (outputs : List RequestOutput) :
    (run chunkOf outputs).chunks = (outputs.flatMap (·.outputs)).map chunkOf :=
  (foldl_sendAll chunkOf outputs ⟨0, 0, []⟩).1.trans (List.nil_append _)

theorem run_numCompletionTokens (outputs : List RequestOutput) :
    (run chunkOf outputs).numCompletionTokens =
      ((outputs.flatMap (·.outputs)).map (·.tokenIds.length)).sum :=
  (foldl_sendAll chunkOf outputs ⟨0, 0, []⟩).2.trans (Nat.zero_add _)

theorem run_numPromptTokens (before : List RequestOutput) (output : RequestOutput) :
    (run chunkOf (before ++ [output])).numPromptTokens = output.promptTokenIds.length := by
  unfold run
  rw [List.foldl_append]
  show (sendAll chunkOf (before.foldl (sendAll chunkOf) ⟨0, 0, []⟩) output).numPromptTokens = _
  unfold sendAll
  rw [foldl_send]

end Streaming

section Sent

variable (header : Header) (includeUsage : Bool) (outputs : List RequestOutput)

def completionsOf : List CompletionOutput := outputs.flatMap (·.outputs)

theorem chunks_append {α : Type} (sent : List α) (last : α) :
    chunks (sent.map Event.data ++ (if includeUsage then [.data last] else []) ++ [.done]) =
      sent ++ if includeUsage then [last] else [] := by
  unfold chunks
  cases includeUsage <;> simp

/-- The usage that is sent. -/
structure Counted (usage : UsageInfo) : Prop where
  completionTokens : usage.completionTokens =
    ((completionsOf outputs).map (·.tokenIds.length)).sum
  promptTokens : ∀ before output, outputs = before ++ [output] →
    usage.promptTokens = output.promptTokenIds.length
  totalTokens : usage.totalTokens = usage.promptTokens + usage.completionTokens

theorem counted_run {α : Type} (chunkOf : CompletionOutput → α) :
    Counted outputs (Streaming.run chunkOf outputs).usage where
  completionTokens := Streaming.run_numCompletionTokens chunkOf outputs
  promptTokens before output heq := heq ▸ Streaming.run_numPromptTokens chunkOf before output
  totalTokens := rfl

theorem completionStream_sent :
    let sent := chunks (completionStream header includeUsage outputs)
    sent.flatMap (·.pieces) = (completionsOf outputs).map piece ∧
      ∃ usage, Counted outputs usage ∧
        sent.filterMap (·.usage) = if includeUsage then [usage] else [] := by
  intro sent
  have hsent : sent = _ := chunks_append includeUsage _ _
  rw [Streaming.run_chunks] at hsent
  refine ⟨?_, _, counted_run outputs (completionChunk header), ?_⟩
  · rw [hsent, List.flatMap_append, List.flatMap_map]
    cases includeUsage <;>
      simp [CompletionStreamResponse.pieces, completionChunk, piece, completionsOf,
        List.map_eq_flatMap]
  · rw [hsent, List.filterMap_append, List.filterMap_map]
    cases includeUsage <;> simp [completionChunk, Function.comp_def]

theorem chatStream_sent (n : ℕ) :
    let sent := chunks (chatStream header n includeUsage outputs)
    sent.flatMap (·.pieces) =
        (List.range n).map (fun index => ⟨index, [], none, none⟩) ++
          (completionsOf outputs).map piece ∧
      ∃ usage, Counted outputs usage ∧
        sent.filterMap (·.usage) = if includeUsage then [usage] else [] := by
  intro sent
  have hsent : sent = _ :: _ := congrArg (List.cons _) (chunks_append includeUsage _ _)
  rw [Streaming.run_chunks] at hsent
  refine ⟨?_, _, counted_run outputs (chatChunk header), ?_⟩
  · rw [hsent, List.flatMap_cons, List.flatMap_append, List.flatMap_map]
    cases includeUsage <;>
      simp [ChatCompletionStreamResponse.pieces, chatChunk, piece, completionsOf,
        List.map_eq_flatMap, List.flatMap_assoc]
  · rw [hsent, List.filterMap_cons, List.filterMap_append, List.filterMap_map]
    cases includeUsage <;> simp [chatChunk, Function.comp_def]

end Sent

/-! ### What agrees -/

section Agreement

theorem sum_range_index {n k a : ℕ} (g : ℕ → ℕ) (hk : k < n) :
    ((List.range n).map fun i => if k = i then a + g i else g i).sum =
      a + ((List.range n).map g).sum := by
  induction n with
  | zero => exact absurd hk (Nat.not_lt_zero k)
  | succ n ih =>
      rw [List.sum_range_succ, List.sum_range_succ]
      by_cases heq : k = n
      · subst heq
        have hrest : (List.range k).map (fun i => if k = i then a + g i else g i) =
            (List.range k).map g :=
          List.map_congr_left fun i hi => if_neg (List.mem_range.mp hi).ne'
        rw [if_pos rfl, hrest]
        omega
      · rw [if_neg heq, ih (by omega)]
        omega

theorem sum_by_index {n : ℕ} (completions : List CompletionOutput)
    (h : ∀ completion ∈ completions, completion.index < n) :
    ((List.range n).map fun i =>
        ((completions.filter (·.index = i)).map (·.tokenIds.length)).sum).sum =
      (completions.map (·.tokenIds.length)).sum := by
  induction completions with
  | nil => simp
  | cons completion rest ih =>
      obtain ⟨hfirst, hrest⟩ := List.forall_mem_cons.mp h
      rw [List.map_cons, List.sum_cons, ← ih hrest, ← sum_range_index _ hfirst]
      refine congrArg List.sum (List.map_congr_left fun i _ => ?_)
      rw [List.filter_cons]
      by_cases hi : completion.index = i <;> simp [hi]

/-- The completions of a stream, and the last ones when they are not streamed. -/
structure Results (n : ℕ) (streamed finals : List CompletionOutput) : Prop where
  within : ∀ completion ∈ streamed, completion.index < n
  indices : finals.map (·.index) = List.range n
  results : ∀ final ∈ finals,
    TwinResults final.index (streamed.filter (·.index = final.index)) final

theorem Results.tokens {n : ℕ} {streamed finals : List CompletionOutput}
    (h : Results n streamed finals) :
    (streamed.map (·.tokenIds.length)).sum = (finals.map (·.tokenIds.length)).sum := by
  rw [← sum_by_index streamed h.within, ← h.indices, List.map_map]
  exact congrArg List.sum (List.map_congr_left fun final hfinal => (h.results final hfinal).tokens)

theorem sortedOutputs_eq {n : ℕ} {output : RequestOutput}
    (h : output.outputs.map (·.index) = List.range n) : sortedOutputs output = output.outputs := by
  refine List.mergeSort_of_pairwise ?_
  have hsorted : (output.outputs.map (·.index)).Pairwise (· ≤ ·) := by
    rw [h]
    exact List.pairwise_le_range
  exact (List.pairwise_map.mp hsorted).imp fun hle => decide_eq_true hle

theorem completionComplete_concat {n : ℕ} (header : Header) (before : List RequestOutput)
    {final : RequestOutput} (h : final.outputs.map (·.index) = List.range n) :
    ∃ response, completionComplete header (before ++ [final]) = .ok response ∧
      response.pieces = final.outputs.map piece ∧ response.usage = usageOf final := by
  unfold completionComplete
  rw [List.getLast?_concat]
  dsimp only
  rw [sortedOutputs_eq h]
  refine ⟨_, rfl, ?_, rfl⟩
  unfold CompletionResponse.pieces
  rw [List.map_map]
  rfl

theorem chatComplete_concat {n : ℕ} (header : Header) (before : List RequestOutput)
    {final : RequestOutput} (h : final.outputs.map (·.index) = List.range n) :
    ∃ response, chatComplete header (before ++ [final]) = .ok response ∧
      response.pieces = final.outputs.map piece ∧ response.usage = usageOf final := by
  unfold chatComplete
  rw [List.getLast?_concat]
  dsimp only
  rw [sortedOutputs_eq h]
  refine ⟨_, rfl, ?_, rfl⟩
  unfold ChatCompletionResponse.pieces
  rw [List.map_map]
  rfl

/-- Two lists of pieces of which one begins with pieces that say nothing. -/
theorem Results.agree {n : ℕ} {streamed : List CompletionOutput} {final : RequestOutput}
    (h : Results n streamed final.outputs) (includeUsage : Bool) {usage : UsageInfo}
    (hcompletion : usage.completionTokens = (streamed.map (·.tokenIds.length)).sum)
    (hprompt : usage.promptTokens = final.promptTokenIds.length)
    (htotal : usage.totalTokens = usage.promptTokens + usage.completionTokens)
    (silent : List Piece) (hwithin : ∀ piece ∈ silent, piece.index < n)
    (hsilent : ∀ piece ∈ silent, piece.text = [] ∧ piece.finishReason = none) :
    Agree n includeUsage (silent ++ streamed.map piece) (if includeUsage then [usage] else [])
      (final.outputs.map piece) (usageOf final) where
  indices := by
    rw [List.map_map]
    exact h.indices
  within := by
    refine List.forall_mem_append.mpr ⟨hwithin, List.forall_mem_map.mpr h.within⟩
  text := by
    rw [List.forall_mem_map]
    intro completion hmem
    have hresults := h.results completion hmem
    rw [List.filter_append, List.flatMap_append, List.filter_map, List.flatMap_map]
    -- the pieces that only name a role say nothing
    have hempty : (silent.filter (·.index = (piece completion).index)).flatMap (·.text) = [] :=
      List.flatMap_eq_nil_iff.mpr fun p hp => (hsilent p (List.mem_of_mem_filter hp)).1
    rw [hempty, List.nil_append]
    exact hresults.text
  ends := by
    rw [List.forall_mem_map]
    intro completion hmem
    obtain ⟨before, last, hfilter, hbefore, hisSome, hreason, hstop⟩ :=
      (h.results completion hmem).ends
    refine ⟨piece last, ?_, hreason, hstop⟩
    have hsplit : streamed.filter (fun c => c.index = completion.index ∧ c.finishReason.isSome) =
        (streamed.filter (·.index = completion.index)).filter (·.finishReason.isSome) := by
      rw [List.filter_filter]
      exact List.filter_congr fun c _ => by simp [Bool.and_comm]
    have hquiet : silent.filter (fun p => p.index = (piece completion).index ∧
        p.finishReason.isSome) = [] := by
      rw [List.filter_eq_nil_iff]
      intro p hp
      simp [(hsilent p hp).2]
    have hlast : (before ++ [last]).filter (·.finishReason.isSome) = [last] := by
      have hnone : before.filter (·.finishReason.isSome) = [] := by
        rw [List.filter_eq_nil_iff]
        intro c hc
        simp [hbefore c hc]
      rw [List.filter_append, hnone, List.nil_append, List.filter_singleton, hisSome]
      rfl
    rw [List.filter_append, hquiet, List.nil_append, List.filter_map]
    show (streamed.filter fun c => c.index = completion.index ∧ c.finishReason.isSome).map piece = _
    rw [hsplit, hfilter, hlast]
    rfl
  usages := by
    cases includeUsage with
    | false => rfl
    | true =>
        have hsorted := sortedOutputs_eq h.indices
        have hgenerated : usage.completionTokens = (usageOf final).completionTokens := by
          rw [hcompletion, h.tokens]
          unfold usageOf
          rw [hsorted]
        refine ⟨usage, rfl, hprompt, hgenerated, ?_⟩
        rw [htotal, hprompt, hgenerated]
        rfl

end Agreement

/-! ### Proper stop strings -/

section Forward

variable {σ : Type} {stop : StopParams} {params params' : SamplingParams}
  {promptTokenIds : List TokenId} {streamed whole : ℕ → Child σ} {outputs : List RequestOutput}

theorem results_of_served (hn : params'.n = params.n) (hdelta : params.outputKind = .delta)
    (hserved : Served params promptTokenIds streamed outputs)
    (htwins : ∀ i < params.n, Twin stop i (streamed i) (whole i))
    (hall : ∀ i < params.n, (whole i).finished = true) {final : RequestOutput}
    (hfinal : final.outputs.map some =
      (List.range params'.n).map fun i => (whole i).chunks.getLast?) :
    Results params.n (completionsOf outputs) final.outputs := by
  rw [hn] at hfinal
  obtain ⟨hwithin, hchunks⟩ := hserved.delta hdelta
  have hresults : ∀ i < params.n, ∃ last, (whole i).chunks.getLast? = some last ∧
      TwinResults i ((completionsOf outputs).filter (·.index = i)) last := by
    intro i hi
    obtain ⟨last, hlast, hresults⟩ := (htwins i hi).results (hall i hi)
    refine ⟨last, hlast, ?_⟩
    unfold completionsOf
    rw [hchunks i hi]
    exact hresults
  refine ⟨fun completion hmem => ?_, ?_, fun last hmem => ?_⟩
  · obtain ⟨output, houtput, hcompletion⟩ := List.mem_flatMap.mp hmem
    exact hwithin output houtput completion hcompletion
  · have hindices : (final.outputs.map some).map (Option.map (·.index)) =
        (List.range params.n).map some := by
      rw [hfinal, List.map_map]
      refine List.map_congr_left fun i hi => ?_
      obtain ⟨last, hlast, hlastResults⟩ := hresults i (List.mem_range.mp hi)
      show Option.map _ (whole i).chunks.getLast? = _
      rw [hlast, Option.map_some, hlastResults.index]
    rw [List.map_map] at hindices
    refine List.map_injective_iff.mpr (Option.some_injective ℕ) ?_
    rw [← hindices, List.map_map]
    rfl
  · have hsome : some last ∈ final.outputs.map some := List.mem_map_of_mem hmem
    rw [hfinal] at hsome
    obtain ⟨i, hi, hlast⟩ := List.mem_map.mp hsome
    obtain ⟨last', hlast', hlastResults⟩ := hresults i (List.mem_range.mp hi)
    obtain rfl := Option.some.inj (hlast'.symm.trans hlast)
    rw [hlastResults.index]
    exact hlastResults

/-- When no stop string can cut what is out, the two agree. -/
theorem responsesAgree_of_proper (hproper : stop.Proper) : ResponsesAgree stop := by
  intro σ detokenizing before requestId params prompt promptTokenIds arrivalTime decoderState steps
    header includeUsage session yielded hstop hn hunused hprompt
  subst hstop
  have hsound : session.processor.Sound :=
    Session.sound_run (OutputProcessor.sound_init (σ := σ)) before
  obtain ⟨states, hstarts, hserved⟩ := served_register { params with outputKind := .delta }
    prompt arrivalTime hn hsound rfl hunused hprompt steps
  obtain ⟨states', hstarts', hserved'⟩ := served_register { params with outputKind := .finalOnly }
    prompt arrivalTime hn hsound rfl hunused hprompt steps
  -- child by child, the two generations go through the same texts
  have htwins : ∀ i < params.n, Twin params.stop i
      (Child.follow detokenizing.toDecoder (engineId requestId params.n i) ⟨[], some (states i)⟩
        (timed steps))
      (Child.follow detokenizing.toDecoder (engineId requestId params.n i) ⟨[], some (states' i)⟩
        (timed steps)) := by
    intro i hi
    obtain ⟨⟨own, hkind, hdelta, hown⟩, hdetokenizer, hindex⟩ := hstarts i hi
    obtain ⟨⟨own', hkind', hwhole, hown'⟩, hdetokenizer', hindex'⟩ := hstarts' i hi
    refine (Twin.start ⟨⟨own, hkind, ?_, hown⟩, hindex⟩ ⟨⟨own', hkind', ?_, hown'⟩, hindex'⟩
      hdetokenizer hdetokenizer').follow hproper _ _
    · rw [hdelta]
      rfl
    · rw [hwhole]
      rfl
  replace hserved : Served { params with outputKind := .delta } promptTokenIds _
    (reports requestId _) := hserved
  have hstreams := hserved.last
  have hwaits := hserved'.last
  -- they end together, or neither of them does
  by_cases hall : ∀ i < params.n, (Child.follow detokenizing.toDecoder
      (engineId requestId params.n i) ⟨[], some (states' i)⟩ (timed steps)).finished = true
  · rw [if_pos fun i hi => (htwins i hi).finished.trans (hall i hi)] at hstreams
    rw [if_pos hall] at hwaits
    obtain ⟨before₁, last, houtputs, hlast, hbefore₁, -⟩ := hstreams
    obtain ⟨before₂, final, houtputs', hfinal, hbefore₂, hfinals⟩ := hwaits
    have hresults := results_of_served rfl rfl hserved htwins hall (hfinals (by rintro ⟨⟩))
    have hpromptIds : last.promptTokenIds = final.promptTokenIds := by
      rw [hserved.prompts last (houtputs ▸ List.mem_append_right _ (List.mem_singleton_self _)),
        hserved'.prompts final (houtputs' ▸ List.mem_append_right _ (List.mem_singleton_self _))]
    have hyields : yielded .delta = some (before₁ ++ [last]) := by
      show generate (reports requestId _) = _
      rw [houtputs]
      exact generate_concat hbefore₁ hlast
    have hyields' : yielded .finalOnly = some (before₂ ++ [final]) := by
      show generate (reports requestId _) = _
      rw [houtputs']
      exact generate_concat hbefore₂ hfinal
    rw [houtputs] at hresults
    rw [hyields, hyields']
    refine ⟨rfl, fun streamed whole hstreamed hwhole => ?_⟩
    obtain rfl := Option.some.inj hstreamed
    obtain rfl := Option.some.inj hwhole
    refine ⟨?_, ?_⟩
    · obtain ⟨response, hresponse, hpieces, husage⟩ :=
        completionComplete_concat header before₂ hresults.indices
      obtain ⟨hsent, usage, hcounted, husages⟩ :=
        completionStream_sent header includeUsage (before₁ ++ [last])
      refine ⟨response, hresponse, ?_⟩
      dsimp only at hsent husages ⊢
      rw [hsent, husages, hpieces, husage]
      exact hresults.agree includeUsage hcounted.completionTokens
        ((hcounted.promptTokens _ _ rfl).trans (congrArg List.length hpromptIds))
        hcounted.totalTokens [] (fun p hp => absurd hp List.not_mem_nil)
        fun p hp => absurd hp List.not_mem_nil
    · obtain ⟨response, hresponse, hpieces, husage⟩ :=
        chatComplete_concat header before₂ hresults.indices
      obtain ⟨hsent, usage, hcounted, husages⟩ :=
        chatStream_sent header includeUsage (before₁ ++ [last]) params.n
      refine ⟨response, hresponse, ?_⟩
      dsimp only at hsent husages ⊢
      rw [hsent, husages, hpieces, husage]
      refine hresults.agree includeUsage hcounted.completionTokens
        ((hcounted.promptTokens _ _ rfl).trans (congrArg List.length hpromptIds))
        hcounted.totalTokens _ ?_ ?_
      · exact List.forall_mem_map.mpr fun index hindex => List.mem_range.mp hindex
      · exact List.forall_mem_map.mpr fun index hindex => ⟨rfl, rfl⟩
  · rw [if_neg fun h => hall fun i hi => (htwins i hi).finished.symm.trans (h i hi)] at hstreams
    rw [if_neg hall] at hwaits
    have hnone : yielded .delta = none := generate_of_unfinished hstreams
    have hnone' : yielded .finalOnly = none := generate_of_unfinished hwaits
    rw [hnone, hnone']
    exact ⟨rfl, fun streamed whole hstreamed => (by cases hstreamed)⟩

end Forward

/-! ### Stop strings that are not proper -/

section Converse

variable {σ : Type}

/-- A request for one completion whose engine makes these chunks, each in a step of its own. -/
def chunkSteps (requestId : Text) (chunks : List Chunk) : List EngineStep :=
  chunks.map fun chunk =>
    (0, [⟨requestId, chunk.newTokenIds, chunk.finishReason, none, [], 0, none⟩])

theorem timed_chunkSteps (requestId : Text) (chunks : List Chunk) :
    (∀ o ∈ timed (chunkSteps requestId chunks), o.2.requestId = requestId) ∧
      (timed (chunkSteps requestId chunks)).map (fun o =>
        (⟨o.2.newTokenIds, o.2.finishReason⟩ : Chunk)) = chunks := by
  induction chunks with
  | nil => exact ⟨fun o ho => absurd ho List.not_mem_nil, rfl⟩
  | cons chunk rest ih =>
      exact ⟨List.forall_mem_cons.mpr ⟨rfl, ih.1⟩, congrArg (List.cons chunk) ih.2⟩

/-- What is yielded of one completion: its pieces are the texts of the stream. -/
theorem yields_stream (decoder : Decoder σ) (params : SamplingParams) (decoderState : σ)
    (hn : params.n = 1) {chunks : List Chunk} {texts : List Text} {ending : Ending}
    (h : stream decoder params.stop (params.outputKind = .delta)
      (Detokenizer.init [] decoderState) chunks = some (texts, ending)) :
    let session : Session σ := { (Session.init σ).run ⟨decoder, fun _ => .ok decoderState⟩ [] with
      emitted := [] }
    ∃ child : Child σ, ∃ before output,
      reports ['r'] ((session.register ⟨decoder, fun _ => .ok decoderState⟩ ['r'] params none []
        (fun _ => 0)).processSteps ⟨decoder, fun _ => .ok decoderState⟩
          (chunkSteps ['r'] chunks)).emitted = before ++ [output] ∧
      generate (before ++ [output]) = some (before ++ [output]) ∧
      child.chunks.map (·.text) = texts ∧
      (params.outputKind = .delta →
        (completionsOf (before ++ [output])).filter (·.index = 0) = child.chunks) ∧
      (params.outputKind ≠ .delta → output.outputs.map some = [child.chunks.getLast?]) := by
  intro session
  obtain ⟨hids, hchunks⟩ := timed_chunkSteps ['r'] chunks
  have hsound : session.processor.Sound := OutputProcessor.sound_init (σ := σ)
  have hunused : Unused session.processor ['r'] params.n :=
    ⟨rfl, fun _ _ => rfl, rfl, fun id state ref parent hstate => (by cases hstate)⟩
  have hprompt : (Detokenizing.mk decoder fun _ => .ok decoderState).convertPrompt [] =
      .ok decoderState := rfl
  obtain ⟨states, hstarts, hserved⟩ := served_register params none (fun _ => 0) hn.ge hsound rfl
    hunused hprompt (chunkSteps ['r'] chunks)
  obtain ⟨⟨own, hkind, hown, hstop⟩, hdetokenizer, hindex⟩ := hstarts 0 (by omega)
  have hasked : Asked params.stop (params.outputKind = .delta) 0 (states 0) :=
    ⟨⟨own, hkind, by rw [hown], hstop⟩, hindex⟩
  have hid : engineId ['r'] params.n 0 = ['r'] := if_neg (by omega)
  rw [← hchunks, ← hdetokenizer] at h
  obtain ⟨htexts, hfinished⟩ := Child.follow_stream hasked [] hids h
  have hlast := hserved.last
  rw [if_pos fun i hi => ?_] at hlast
  · obtain ⟨before, output, houtputs, hdone, hbefore, hfinal⟩ := hlast
    refine ⟨_, before, output, houtputs, generate_concat hbefore hdone, htexts, fun hdelta => ?_,
      fun hkind => ?_⟩
    · have hpieces := (hserved.delta hdelta).2 0 (by omega)
      rw [houtputs, hid] at hpieces
      exact hpieces
    · have hlast := hfinal hkind
      rw [hn] at hlast
      exact hlast
  · obtain rfl : i = 0 := by omega
    rw [hid]
    exact hfinished

/-- When the response has one choice, what is streamed of it adds up to its text. -/
theorem Agree.single {header : Header} {streamed whole : List RequestOutput}
    {final : RequestOutput} {last : CompletionOutput} {response : CompletionResponse}
    {usages : List UsageInfo} {usage : UsageInfo}
    (h : Agree 1 false ((chunks (completionStream header false streamed)).flatMap (·.pieces))
      usages response.pieces usage)
    (hfinal : whole.getLast? = some final) (houtput : final.outputs = [last])
    (hresponse : completionComplete header whole = .ok response) :
    ((completionsOf streamed).filter (·.index = 0)).flatMap (·.text) = last.text := by
  have hpieces : response.pieces = [piece last] := by
    unfold completionComplete at hresponse
    rw [hfinal] at hresponse
    dsimp only at hresponse
    rw [← Except.ok.inj hresponse]
    unfold CompletionResponse.pieces sortedOutputs
    rw [houtput, List.mergeSort_singleton]
    rfl
  have hindices := h.indices
  have htext := h.text
  rw [hpieces] at hindices htext
  have hindex : last.index = 0 := (List.cons.inj hindices).1
  obtain ⟨hsent, -⟩ := completionStream_sent header false streamed
  have hadds := htext (piece last) (List.mem_singleton_self _)
  rw [hsent, List.filter_map, List.flatMap_map] at hadds
  have hown : (completionsOf streamed).filter (·.index = 0) = (completionsOf streamed).filter
      ((fun p : Piece => decide (p.index = (piece last).index)) ∘ piece) := by
    refine List.filter_congr fun completion _ => ?_
    show decide (completion.index = 0) = decide (completion.index = last.index)
    rw [hindex]
  rw [hown]
  exact hadds

/-- Parameters that are not proper: a stream there is that is not what the response says. -/
theorem proper_of_responsesAgree {stop : StopParams} (h : ResponsesAgree stop) : stop.Proper := by
  by_contra himproper
  obtain ⟨decoder, chunks, texts, ending, hstream, hne⟩ := exists_retracted himproper
  obtain ⟨texts', hwhole, hlast⟩ := stream_readTo decoder stop (Detokenizer.init [] ()) 0 hstream
  have hagree := h Unit ⟨decoder, fun _ => .ok ()⟩ [] ['r'] ⟨1, none, .delta, none, stop⟩ none []
    (fun _ => 0) () (chunkSteps ['r'] chunks) ⟨[], 0, []⟩ false rfl le_rfl
    ⟨rfl, fun _ _ => rfl, rfl, fun id state ref parent hstate => (by cases hstate)⟩ rfl
  obtain ⟨streamed, before, output, hreports, hyields, htexts, hpieces, -⟩ :=
    yields_stream decoder ⟨1, none, .delta, none, stop⟩ () rfl hstream
  obtain ⟨final, before', output', hreports', hyields', htexts', -, hfinal⟩ :=
    yields_stream decoder ⟨1, none, .finalOnly, none, stop⟩ () rfl hwhole
  have hyields₁ := (congrArg generate hreports).trans hyields
  have hyields₂ := (congrArg generate hreports').trans hyields'
  obtain ⟨⟨response, hresponse, hsays⟩, -⟩ := hagree.2 _ _ hyields₁ hyields₂
  -- the one completion of the response
  obtain ⟨last, hlastChunk, hlastText⟩ : ∃ last, final.chunks.getLast? = some last ∧
      last.text = ending.outputText := by
    rw [← htexts', List.getLast?_map] at hlast
    exact Option.map_eq_some_iff.mp hlast
  have houtput : output'.outputs = [last] := by
    have hsome := hfinal (by rintro ⟨⟩)
    rw [hlastChunk] at hsome
    exact List.map_injective_iff.mpr (Option.some_injective _) hsome
  have hadds := hsays.single (List.getLast?_concat ..) houtput hresponse
  rw [hpieces rfl, hlastText] at hadds
  refine hne ?_
  rw [← htexts, ← List.flatMap_def]
  exact hadds

/-- Streamed and not streamed, completions and chats agree exactly with stop strings that are
proper: none is empty, or an empty one is found before any text can be streamed. -/
theorem responsesAgree_iff (stop : StopParams) : ResponsesAgree stop ↔ stop.Proper :=
  ⟨proper_of_responsesAgree, responsesAgree_of_proper⟩

/-- With an empty stop string and `min_tokens` of one the stream has said what the response
does not. -/
theorem retracted_disagrees :
    let stop : StopParams := ⟨[[]], 1, false⟩
    let detokenizing := spelling fun tokenId => if tokenId = 0 then "Hello".toList else ['!']
    let session : Session Unit := { (Session.init Unit).run detokenizing [] with emitted := [] }
    let yielded (kind : RequestOutputKind) :=
      generate (reports ['r'] ((session.register detokenizing ['r'] ⟨1, none, kind, none, stop⟩
        none [7] fun _ => 0).processSteps detokenizing
          [(1, [⟨['r'], [0], none, none, [], 0, none⟩]),
            (2, [⟨['r'], [1], none, none, [], 0, none⟩])]).emitted)
    (yielded .delta).map (fun streamed => (completionsOf streamed).map fun completion =>
        (completion.index, completion.text)) = some [(0, "Hello".toList), (0, [])] ∧
      (yielded .finalOnly).map (fun whole => whole.getLast?.map fun final =>
        final.outputs.map fun completion => (completion.index, completion.text)) =
          some (some [(0, [])]) ∧
      ¬ResponsesAgree stop := by
  intro stop detokenizing session yielded
  have hstreamed : (yielded .delta).map (fun streamed => (completionsOf streamed).map
      fun completion => (completion.index, completion.text)) =
        some [(0, "Hello".toList), (0, [])] := by decide +kernel
  have hwhole : (yielded .finalOnly).map (fun whole => whole.getLast?.map fun final =>
      final.outputs.map fun completion => (completion.index, completion.text)) =
        some (some [(0, [])]) := by decide +kernel
  refine ⟨hstreamed, hwhole, fun h => ?_⟩
  obtain ⟨streamed, hyields, htexts⟩ := Option.map_eq_some_iff.mp hstreamed
  obtain ⟨whole, hyields', hfinal⟩ := Option.map_eq_some_iff.mp hwhole
  obtain ⟨final, hlast, houtputs⟩ := Option.map_eq_some_iff.mp hfinal
  have hagree := h Unit detokenizing [] ['r'] ⟨1, none, .delta, none, stop⟩ none [7] (fun _ => 0)
    () [(1, [⟨['r'], [0], none, none, [], 0, none⟩]),
      (2, [⟨['r'], [1], none, none, [], 0, none⟩])] ⟨[], 0, []⟩ false rfl le_rfl
    ⟨rfl, fun _ _ => rfl, rfl, fun id state ref parent hstate => (by cases hstate)⟩ rfl
  obtain ⟨⟨response, hresponse, hsays⟩, -⟩ := hagree.2 streamed whole hyields hyields'
  obtain ⟨last, hone, hsaid⟩ := List.map_eq_singleton_iff.mp houtputs
  have hadds := hsays.single hlast hone hresponse
  have hpieces : (((completionsOf streamed).map fun completion =>
      (completion.index, completion.text)).filter (·.1 = 0)).flatMap (·.2) = last.text := by
    rw [List.filter_map, List.flatMap_map]
    exact hadds
  rw [htexts, (Prod.mk.inj hsaid).2] at hpieces
  revert hpieces
  decide

end Converse

end Pvllm.Frontend.OpenAI
