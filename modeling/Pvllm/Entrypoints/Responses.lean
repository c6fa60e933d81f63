import Pvllm.Engine.Mirrors
import Pvllm.Entrypoints.Serving

/-!
The Responses endpoint, streamed and not.

A stream adds up the texts and the tokens of the chunks as they go out and answers with
them at its end; without streaming the answer is made of the last output. A later turn
that names a stored response goes on from its output. The chunks that have no text are
not counted, and a stream with no text stores a message with no content, so that the two
answers are the same exactly when every chunk with tokens has text, and some chunk has.
-/

namespace Pvllm.Frontend.OpenAI

/-! ### The request -/

/-- The `stop` field: missing, one string or a list. -/
inductive StopField where
  | none
  | str (text : Text)
  | list (texts : List Text)
deriving DecidableEq

/-- The fields of a request that its sampling parameters are made of. -/
structure ResponsesRequest where
  maxOutputTokens : Option ℕ
  seed : Option ℤ
  stop : StopField
  includeStopStrInOutput : Bool
  stream : Bool
deriving DecidableEq

/-- `stop` as a list: what is empty asks for nothing. -/
def StopField.toList : StopField → List Text
  | .none => []
  | .str text => if text = [] then [] else [text]
  | .list texts => texts

/-- The request's own cap is clamped to what is left of the context window. -/
def ResponsesRequest.toSamplingParams (request : ResponsesRequest) (defaultMaxTokens : ℕ) :
    SamplingParams where
  n := 1
  seed := request.seed
  outputKind := if request.stream then .delta else .finalOnly
  maxTokens := some (request.maxOutputTokens.elim defaultMaxTokens (min · defaultMaxTokens))
  stop := ⟨request.stop.toList, 0, request.includeStopStrInOutput⟩

/-! ### Wire types -/

inductive ResponseStatus where
  | queued
  | inProgress
  | completed
  | incomplete
  | failed
  | cancelled
deriving DecidableEq

inductive ItemStatus where
  | inProgress
  | completed
  | incomplete
deriving DecidableEq

def ItemStatus.toResponse : ItemStatus → ResponseStatus
  | .inProgress => .inProgress
  | .completed => .completed
  | .incomplete => .incomplete

/-- The assistant's message: its content is a list of texts. -/
structure ResponseOutputMessage where
  id : Text
  content : List Text
  status : ItemStatus
deriving DecidableEq

structure ResponseUsage where
  inputTokens : ℕ
  cachedTokens : ℕ
  outputTokens : ℕ
  totalTokens : ℕ
deriving DecidableEq

/-- A response, less the fields that echo the request. -/
structure ResponsesResponse where
  header : Header
  incompleteDetails : Option Text
  output : List ResponseOutputMessage
  status : ResponseStatus
  usage : Option ResponseUsage
deriving DecidableEq

def ResponsesResponse.outputText (response : ResponsesResponse) : Text :=
  response.output.flatMap (·.content.flatten)

/-- `incomplete_details`: only a generation that ran out of its budget is incomplete. -/
def incompleteDetails (incomplete : Bool) : Option Text :=
  if incomplete then some "max_output_tokens".toList else none

/-! ### Without streaming -/

def responseOf (header : Header) (messageId : Text) (final : RequestOutput)
    (completion : CompletionOutput) : ResponsesResponse :=
  let numPromptTokens := final.promptTokenIds.length
  let numOutputTokens := completion.tokenIds.length
  let incomplete : Bool := completion.finishReason = some .length
  let status : ItemStatus := if incomplete then .incomplete else .completed
  { header
    incompleteDetails := incompleteDetails incomplete
    output := [⟨messageId, [completion.text], status⟩]
    status := status.toResponse
    usage := some ⟨numPromptTokens, final.numCachedTokens, numOutputTokens,
      numPromptTokens + numOutputTokens⟩ }

/-- `_build_response`, of the last output. -/
def buildResponse (header : Header) (messageId : Text) (final : RequestOutput) :
    Except String ResponsesResponse :=
  match final.outputs with
  | [] => .error "list index out of range"
  | completion :: _ => .ok (responseOf header messageId final completion)

/-- `_complete`, from what `generate` yields. -/
def responsesComplete (header : Header) (messageId : Text) (outputs : List RequestOutput) :
    Except String ResponsesResponse :=
  match outputs.getLast? with
  | none => .error "The engine produced no output."
  | some final => buildResponse header messageId final

/-! ### With streaming -/

/-- The events of a stream, by what they say. -/
inductive ResponseEvent where
  | created (response : ResponsesResponse)
  | inProgress (response : ResponsesResponse)
  | outputItemAdded (itemId : Text)
  | contentPartAdded (itemId : Text)
  | outputTextDelta (itemId delta : Text)
  | outputTextDone (itemId text : Text)
  | contentPartDone (itemId text : Text)
  | outputItemDone (itemId text : Text)
  | completed (response : ResponsesResponse)
deriving DecidableEq

/-- What the loop of a stream keeps. -/
structure Accumulation where
  text : Text
  numPromptTokens : ℕ
  numOutputTokens : ℕ
  numCachedTokens : ℕ
  finishReason : Option FinishReason
  opened : Bool
  events : List ResponseEvent
deriving DecidableEq

namespace Accumulation

def init : Accumulation := ⟨[], 0, 0, 0, none, false, []⟩

/-- A completion with text is counted and goes out; the first one opens the item. -/
def delta (itemId : Text) (acc : Accumulation) (completion : CompletionOutput) : Accumulation :=
  { acc with
    text := acc.text ++ completion.text
    numOutputTokens := acc.numOutputTokens + completion.tokenIds.length
    opened := true
    events := acc.events ++
      (if acc.opened then [] else [.outputItemAdded itemId, .contentPartAdded itemId]) ++
        [.outputTextDelta itemId completion.text] }

/-- One completion: only with text is it more than its finish reason. -/
def fold (itemId : Text) (acc : Accumulation) (completion : CompletionOutput) : Accumulation :=
  let acc := if completion.text ≠ [] then acc.delta itemId completion else acc
  if completion.finishReason.isSome then { acc with finishReason := completion.finishReason }
  else acc

def absorb (itemId : Text) (acc : Accumulation) (output : RequestOutput) : Accumulation :=
  output.outputs.foldl (fold itemId)
    { acc with
      numPromptTokens := output.promptTokenIds.length
      numCachedTokens := output.numCachedTokens }

/-- The loop over what `generate` yields. -/
def run (itemId : Text) (outputs : List RequestOutput) : Accumulation :=
  outputs.foldl (absorb itemId) init

def incomplete (acc : Accumulation) : Bool := acc.finishReason = some .length

def response (header : Header) (messageId : Text) (acc : Accumulation) : ResponsesResponse :=
  let status : ItemStatus := if acc.incomplete then .incomplete else .completed
  { header
    incompleteDetails := incompleteDetails acc.incomplete
    output := [⟨messageId, if acc.text ≠ [] then [acc.text] else [], status⟩]
    status := status.toResponse
    usage := some ⟨acc.numPromptTokens, acc.numCachedTokens, acc.numOutputTokens,
      acc.numPromptTokens + acc.numOutputTokens⟩ }

def closing (itemId : Text) (acc : Accumulation) : List ResponseEvent :=
  if acc.opened then
    [.outputTextDone itemId acc.text, .contentPartDone itemId acc.text,
      .outputItemDone itemId acc.text]
  else []

end Accumulation

def streamedResponse (header : Header) (itemId messageId : Text) (outputs : List RequestOutput) :
    ResponsesResponse :=
  (Accumulation.run itemId outputs).response header messageId

/-- `stream_responses`, from what `generate` yields: its events, each with its number. -/
def streamResponses (header : Header) (itemId messageId : Text) (outputs : List RequestOutput) :
    List (ResponseEvent × ℕ) :=
  let opening : ResponsesResponse := ⟨header, none, [], .inProgress, none⟩
  let acc := Accumulation.run itemId outputs
  let events : List ResponseEvent := [.created opening, .inProgress opening] ++ acc.events ++
    acc.closing itemId ++ [.completed (acc.response header messageId)]
  events.zipIdx

/-! ### The next turn -/

structure InputMessage where
  role : Text
  content : Text
deriving DecidableEq

/-- A part of an item's content: a string, or an object with its `type` and `text`. -/
inductive ContentPart where
  | str (text : Text)
  | dict (type text : Option Text)
  | other
deriving DecidableEq

inductive ItemContent where
  | none
  | str (text : Text)
  | list (parts : List ContentPart)
  | other
deriving DecidableEq

/-- An item of the input: an object, or something else of a type of this name. -/
inductive InputItem where
  | dict (type role : Option Text) (content : ItemContent)
  | other (typeName : Text)
deriving DecidableEq

inductive RequestInput where
  | str (text : Text)
  | list (items : List InputItem)
deriving DecidableEq

def unsupportedItemTypes : List Text :=
  ["item_reference".toList, "function_call".toList, "function_call_output".toList,
    "computer_call".toList, "computer_call_output".toList, "image_generation_call".toList,
    "local_shell_call".toList, "local_shell_call_output".toList,
    "code_interpreter_call".toList, "file_search_call".toList, "web_search_call".toList,
    "custom_tool_call".toList, "custom_tool_call_output".toList, "reasoning".toList]

def ContentPart.read : ContentPart → Except PyError Text
  | .str text => .ok text
  | .other => .error (.valueError "unrecognised content part")
  | .dict none _ => .error (.valueError "unrecognised content part type: None")
  | .dict (some type) text =>
    if ["input_text".toList, "output_text".toList, "text".toList].contains type then
      .ok (text.getD [])
    else if ["input_image".toList, "input_file".toList, "input_audio".toList].contains type then
      .error (.notImplementedError (s!"Responses API '{String.ofList type}' content parts are " ++
        "not modelled by pretending-vllm: /v1/responses does not reach the multimodal path. " ++
        "Use /v1/chat/completions for images."))
    else
      .error (.valueError s!"unrecognised content part type: '{String.ofList type}'")

def ItemContent.read : ItemContent → Except PyError Text
  | .none => .ok []
  | .str text => .ok text
  | .list parts => (parts.mapM ContentPart.read).map List.flatten
  | .other => .error (.valueError "input item content must be a string or a list")

def InputItem.normalise : InputItem → Except PyError InputMessage
  | .other typeName =>
    .error (.valueError s!"input items must be objects, got {String.ofList typeName}")
  | .dict type role content =>
    if type.any (unsupportedItemTypes.contains ·) then
      .error (.notImplementedError (s!"Responses API input items of type " ++
        s!"'{String.ofList (type.getD [])}' are not modelled by pretending-vllm."))
    else
      match role with
      | none => .error (.valueError "input item is missing a role")
      | some role => content.read.map (⟨role, ·⟩)

def RequestInput.messages : RequestInput → Except PyError (List InputMessage)
  | .str text => .ok [⟨"user".toList, text⟩]
  | .list items => items.mapM InputItem.normalise

/-- The messages that come before the input: the instructions of this request, and the turns
so far with the output they got. The system messages of a stored turn are dropped. -/
def earlierMessages (instructions : Option Text) (prevMsg : Option (List InputMessage))
    (prevResponseOutput : Option (List ResponseOutputMessage)) : List InputMessage :=
  ((instructions.filter (· ≠ [])).map (⟨"system".toList, ·⟩)).toList ++
    (prevMsg.getD []).filter (·.role ≠ "system".toList) ++
      (prevResponseOutput.getD []).flatMap fun item =>
        item.content.map (⟨"assistant".toList, ·⟩)

def constructInputMessages (instructions : Option Text) (input : RequestInput)
    (prevMsg : Option (List InputMessage))
    (prevResponseOutput : Option (List ResponseOutputMessage)) :
    Except PyError (List InputMessage) :=
  input.messages.map (earlierMessages instructions prevMsg prevResponseOutput ++ ·)

/-- Two responses say the same, and a turn that goes on from either renders the same
messages. -/
structure ResponsesMatch (streamed whole : ResponsesResponse) : Prop where
  status : streamed.status = whole.status
  incompleteDetails : streamed.incompleteDetails = whole.incompleteDetails
  outputText : streamed.outputText = whole.outputText
  usage : streamed.usage = whole.usage
  chained : ∀ instructions input prevMsg,
    constructInputMessages instructions input prevMsg (some streamed.output) =
      constructInputMessages instructions input prevMsg (some whole.output)

/-! ### What the loop keeps -/

/-- What completions add to an accumulation. -/
structure Accumulated (completions : List CompletionOutput) (acc after : Accumulation) : Prop where
  text : after.text = acc.text ++ completions.flatMap (·.text)
  numOutputTokens : after.numOutputTokens = acc.numOutputTokens +
    ((completions.filter (·.text ≠ [])).map (·.tokenIds.length)).sum
  finishReason : after.finishReason =
    (completions.reverse.findSome? (·.finishReason)).or acc.finishReason

theorem Accumulated.trans {first second : List CompletionOutput} {acc mid after : Accumulation}
    (h : Accumulated first acc mid) (h' : Accumulated second mid after) :
    Accumulated (first ++ second) acc after where
  text := by rw [h'.text, h.text, List.flatMap_append, List.append_assoc]
  numOutputTokens := by
    rw [h'.numOutputTokens, h.numOutputTokens, List.filter_append, List.map_append,
      List.sum_append, Nat.add_assoc]
  finishReason := by
    rw [h'.finishReason, h.finishReason, List.reverse_append, List.findSome?_append,
      Option.or_assoc]

namespace Accumulation

variable (itemId : Text)

theorem fold_accumulated (acc : Accumulation) (completion : CompletionOutput) :
    Accumulated [completion] acc (acc.fold itemId completion) := by
  have hreason : (acc.fold itemId completion).finishReason =
      completion.finishReason.or acc.finishReason := by
    unfold fold
    cases completion.finishReason <;> by_cases htext : completion.text = [] <;>
      simp [htext, delta]
  by_cases htext : completion.text = []
  · refine ⟨?_, ?_, by simpa using hreason⟩
    · rw [List.flatMap_singleton, htext, List.append_nil]
      unfold fold
      cases completion.finishReason <;> simp [htext]
    · unfold fold
      cases completion.finishReason <;> simp [htext]
  · refine ⟨?_, ?_, by simpa using hreason⟩
    · rw [List.flatMap_singleton]
      unfold fold
      cases completion.finishReason <;> simp [htext, delta]
    · unfold fold
      cases completion.finishReason <;> simp [htext, delta]

theorem foldl_fold_accumulated (completions : List CompletionOutput) (acc : Accumulation) :
    Accumulated completions acc (completions.foldl (fold itemId) acc) := by
  induction completions generalizing acc with
  | nil => exact ⟨(List.append_nil _).symm, rfl, rfl⟩
  | cons completion rest ih => exact (acc.fold_accumulated itemId completion).trans (ih _)

theorem absorb_accumulated (acc : Accumulation) (output : RequestOutput) :
    Accumulated output.outputs acc (acc.absorb itemId output) := by
  obtain ⟨htext, htokens, hreason⟩ := foldl_fold_accumulated itemId output.outputs
    { acc with
      numPromptTokens := output.promptTokenIds.length
      numCachedTokens := output.numCachedTokens }
  exact ⟨htext, htokens, hreason⟩

theorem run_accumulated (outputs : List RequestOutput) :
    Accumulated (completionsOf outputs) init (run itemId outputs) := by
  have h : ∀ acc, Accumulated (completionsOf outputs) acc (outputs.foldl (absorb itemId) acc) := by
    induction outputs with
    | nil => exact fun acc => ⟨(List.append_nil _).symm, rfl, rfl⟩
    | cons output rest ih => exact fun acc => (acc.absorb_accumulated itemId output).trans (ih _)
  exact h init

theorem fold_counts (acc : Accumulation) (completion : CompletionOutput) :
    (acc.fold itemId completion).numPromptTokens = acc.numPromptTokens ∧
      (acc.fold itemId completion).numCachedTokens = acc.numCachedTokens := by
  unfold fold
  cases completion.finishReason <;> by_cases htext : completion.text = [] <;> simp [htext, delta]

theorem run_counts (before : List RequestOutput) (output : RequestOutput) :
    (run itemId (before ++ [output])).numPromptTokens = output.promptTokenIds.length ∧
      (run itemId (before ++ [output])).numCachedTokens = output.numCachedTokens := by
  have h : ∀ (completions : List CompletionOutput) (acc : Accumulation),
      (completions.foldl (fold itemId) acc).numPromptTokens = acc.numPromptTokens ∧
        (completions.foldl (fold itemId) acc).numCachedTokens = acc.numCachedTokens := by
    intro completions
    induction completions with
    | nil => exact fun acc => ⟨rfl, rfl⟩
    | cons completion rest ih =>
        intro acc
        obtain ⟨hprompt, hcached⟩ := acc.fold_counts itemId completion
        exact ⟨(ih _).1.trans hprompt, (ih _).2.trans hcached⟩
  unfold run
  rw [List.foldl_append]
  exact h output.outputs _

/-- The item is open once there is text, and nothing has gone out before. -/
theorem fold_opened (acc : Accumulation) (completion : CompletionOutput)
    (h : acc.opened = decide (acc.text ≠ []) ∧ (acc.opened = false → acc.events = [])) :
    let after := acc.fold itemId completion
    after.opened = decide (after.text ≠ []) ∧ (after.opened = false → after.events = []) := by
  intro after
  by_cases htext : completion.text = []
  · have hafter : after.opened = acc.opened ∧ after.text = acc.text ∧
        after.events = acc.events := by
      unfold after fold
      cases completion.finishReason <;> simp [htext]
    rw [hafter.1, hafter.2.1, hafter.2.2]
    exact h
  · have hafter : after.opened = true ∧ after.text = acc.text ++ completion.text := by
      unfold after fold
      cases completion.finishReason <;> simp [htext, delta]
    rw [hafter.1, hafter.2]
    refine ⟨?_, fun hclosed => by cases hclosed⟩
    simp [htext]

theorem run_opened (outputs : List RequestOutput) :
    let acc := run itemId outputs
    acc.opened = decide (acc.text ≠ []) ∧ (acc.opened = false → acc.events = []) := by
  have hfold : ∀ (completions : List CompletionOutput) (acc : Accumulation),
      (acc.opened = decide (acc.text ≠ []) ∧ (acc.opened = false → acc.events = [])) →
      let after := completions.foldl (fold itemId) acc
      after.opened = decide (after.text ≠ []) ∧ (after.opened = false → after.events = []) := by
    intro completions
    induction completions with
    | nil => exact fun acc h => h
    | cons completion rest ih => exact fun acc h => ih _ (acc.fold_opened itemId completion h)
  have hrun : ∀ acc : Accumulation,
      (acc.opened = decide (acc.text ≠ []) ∧ (acc.opened = false → acc.events = [])) →
      let after := outputs.foldl (absorb itemId) acc
      after.opened = decide (after.text ≠ []) ∧ (after.opened = false → after.events = []) := by
    induction outputs with
    | nil => exact fun acc h => h
    | cons output rest ih => exact fun acc h => ih _ (hfold output.outputs _ h)
  exact hrun init ⟨rfl, fun _ => rfl⟩

end Accumulation

/-- The last event has the final response. -/
theorem streamResponses_getLast? (header : Header) (itemId messageId : Text)
    (outputs : List RequestOutput) :
    (streamResponses header itemId messageId outputs).getLast?.map Prod.fst =
      some (.completed (streamedResponse header itemId messageId outputs)) := by
  unfold streamResponses
  dsimp only
  rw [← List.getLast?_map, List.zipIdx_map_fst, List.getLast?_concat]
  rfl

/-- A generation that has no text emits three events. -/
theorem streamResponses_of_no_text (header : Header) (itemId messageId : Text)
    {outputs : List RequestOutput}
    (h : ∀ completion ∈ completionsOf outputs, completion.text = []) :
    streamResponses header itemId messageId outputs =
      [(.created ⟨header, none, [], .inProgress, none⟩, 0),
        (.inProgress ⟨header, none, [], .inProgress, none⟩, 1),
        (.completed (streamedResponse header itemId messageId outputs), 2)] := by
  have htext : (Accumulation.run itemId outputs).text = [] := by
    rw [(Accumulation.run_accumulated itemId outputs).text]
    exact List.flatMap_eq_nil_iff.mpr h
  obtain ⟨hopened, hevents⟩ := Accumulation.run_opened itemId outputs
  rw [htext] at hopened
  have hclosed : (Accumulation.run itemId outputs).opened = false := hopened
  unfold streamResponses streamedResponse Accumulation.closing
  dsimp only
  rw [hclosed, hevents hclosed]
  rfl

/-! ### When the two responses match -/

theorem findSome?_reverse_concat {before : List CompletionOutput} {last : CompletionOutput}
    (h : last.finishReason.isSome = true) :
    (before ++ [last]).reverse.findSome? (·.finishReason) = last.finishReason := by
  rw [List.reverse_append, List.reverse_singleton, List.singleton_append, List.findSome?_cons]
  cases hreason : last.finishReason with
  | none => rw [hreason] at h; cases h
  | some reason => rfl

/-- The tokens of the chunks with text are all the tokens exactly when the others have none. -/
theorem sum_tokens_with_text (completions : List CompletionOutput) :
    ((completions.filter (·.text ≠ [])).map (·.tokenIds.length)).sum ≤
        (completions.map (·.tokenIds.length)).sum ∧
      (((completions.filter (·.text ≠ [])).map (·.tokenIds.length)).sum =
          (completions.map (·.tokenIds.length)).sum ↔
        ∀ completion ∈ completions, completion.text = [] → completion.tokenIds = []) := by
  induction completions with
  | nil => exact ⟨le_rfl, iff_of_true rfl fun completion hmem => absurd hmem List.not_mem_nil⟩
  | cons completion rest ih =>
      obtain ⟨hle, hiff⟩ := ih
      rw [List.forall_mem_cons, ← hiff]
      by_cases htext : completion.text = []
      · rw [List.filter_cons_of_neg (by simpa using htext), List.map_cons, List.sum_cons]
        refine ⟨by omega, fun heq => ⟨fun _ => ?_, by omega⟩, fun h => ?_⟩
        · exact List.length_eq_zero_iff.mp (by omega)
        · rw [h.1 htext, List.length_nil, Nat.zero_add]
          exact h.2
      · rw [List.filter_cons_of_pos (by simpa using htext), List.map_cons, List.map_cons,
          List.sum_cons, List.sum_cons]
        refine ⟨by omega, fun heq => ⟨fun hnil => absurd hnil htext, by omega⟩, fun h => ?_⟩
        rw [h.2]

/-- A next turn has the contents of the turn before, one after another. -/
theorem content_of_chained {streamed whole : ResponsesResponse}
    (h : constructInputMessages none (.str []) none (some streamed.output) =
      constructInputMessages none (.str []) none (some whole.output)) :
    streamed.output.flatMap (·.content) = whole.output.flatMap (·.content) := by
  have hmessages (output : List ResponseOutputMessage) :
      constructInputMessages none (.str []) none (some output) =
        .ok ((output.flatMap (·.content)).map (⟨"assistant".toList, ·⟩) ++
          [⟨"user".toList, []⟩]) := by
    show Except.ok _ = Except.ok _
    rw [List.map_flatMap]
    rfl
  rw [hmessages, hmessages] at h
  have hsame := List.append_cancel_right (Except.ok.inj h)
  exact List.map_injective_iff.mpr (fun a b hab => (InputMessage.mk.inj hab).2) hsame

section Match

variable {header : Header} {itemId messageId messageId' : Text}

/-- The last outputs of a generation that is streamed and of the same generation as a whole. -/
structure SameGeneration (streamed whole : List RequestOutput) : Prop where
  results : MirrorResults (completionsOf streamed) (completionsOf whole)
  last : ∃ before before' output output' completion,
    streamed = before ++ [output] ∧ whole = before' ++ [output'] ∧
    output'.outputs = [completion] ∧ (completionsOf whole).getLast? = some completion ∧
    output.promptTokenIds = output'.promptTokenIds ∧
    output.numCachedTokens = output'.numCachedTokens

/-- What the two paths answer matches exactly when every chunk with tokens has text, and some
chunk has. -/
theorem SameGeneration.match_iff {streamed whole : List RequestOutput}
    (h : SameGeneration streamed whole) :
    ∃ response, responsesComplete header messageId' whole = .ok response ∧
      (ResponsesMatch (streamedResponse header itemId messageId streamed) response ↔
        (∀ completion ∈ completionsOf streamed,
            completion.text = [] → completion.tokenIds = []) ∧
          ∃ completion ∈ completionsOf streamed, completion.text ≠ []) := by
  obtain ⟨beforeOutputs, beforeOutputs', output, output', completion, hstreamed, hwhole, houtput,
    hcompletion, hprompt, hcached⟩ := h.last
  obtain ⟨before, last, made, final, hchunks, hfinals, hgoing, hisSome, hreason, htokens,
    htext⟩ := h.results.ends
  obtain rfl : final = completion := by
    rw [hfinals, List.getLast?_concat] at hcompletion
    exact Option.some.inj hcompletion
  obtain ⟨hacc, hnum, hfinish⟩ := Accumulation.run_accumulated itemId streamed
  obtain ⟨hpromptLen, hnumCached⟩ := Accumulation.run_counts itemId beforeOutputs output
  rw [← hstreamed] at hpromptLen hnumCached
  obtain ⟨hle, hcount⟩ := sum_tokens_with_text (completionsOf streamed)
  rw [htokens] at hcount
  rw [show Accumulation.init.text = [] from rfl, List.nil_append] at hacc
  rw [show Accumulation.init.numOutputTokens = 0 from rfl, Nat.zero_add] at hnum
  rw [show Accumulation.init.finishReason = none from rfl, Option.or_none, hchunks,
    findSome?_reverse_concat (hreason ▸ hisSome), hreason] at hfinish
  have hnonempty : (Accumulation.run itemId streamed).text ≠ [] ↔
      ∃ completion ∈ completionsOf streamed, completion.text ≠ [] := by
    rw [hacc, Ne, List.flatMap_eq_nil_iff]
    push Not
    rfl
  refine ⟨responseOf header messageId' output' final, ?_, ?_⟩
  · unfold responsesComplete buildResponse
    rw [hwhole, List.getLast?_concat]
    dsimp only
    rw [houtput]
  · unfold streamedResponse Accumulation.response Accumulation.incomplete
    rw [hfinish, hpromptLen, hnumCached, hprompt, hcached]
    constructor
    · intro hmatch
      have husage : (Accumulation.run itemId streamed).numOutputTokens = final.tokenIds.length :=
        (ResponseUsage.mk.inj (Option.some.inj hmatch.usage)).2.2.1
      refine ⟨hcount.mp (hnum.symm.trans husage), hnonempty.mp fun hnil => ?_⟩
      have hcontent := content_of_chained (hmatch.chained none (.str []) none)
      dsimp only at hcontent
      rw [hnil] at hcontent
      cases hcontent
    · rintro ⟨hall, hsome⟩
      have husage := hnum.trans (hcount.mpr hall)
      have hfinalText : (Accumulation.run itemId streamed).text = final.text := by
        refine hacc.trans (htext.resolve_right fun hnone => ?_)
        obtain ⟨completion, hmem, hne⟩ := hsome
        exact hne (hnone completion hmem)
      rw [husage, if_pos (hnonempty.mpr hsome), hfinalText]
      exact ⟨rfl, rfl, rfl, rfl, fun instructions input prevMsg => rfl⟩

end Match

section Request

variable {σ : Type}

/-- The call of `generate` a request makes: what it yields of these steps of the engine. -/
def yieldedTo (detokenizing : Detokenizing σ) (before : List Call) (requestId : Text)
    (params : SamplingParams) (prompt : Option Text) (promptTokenIds : List TokenId)
    (arrivalTime : ℕ → ℚ) (steps : List EngineStep) : Option (List RequestOutput) :=
  let session : Session σ := { (Session.init σ).run detokenizing before with emitted := [] }
  generate (reports requestId ((session.register detokenizing requestId params prompt
    promptTokenIds arrivalTime).processSteps detokenizing steps).emitted)

theorem completionsOf_solo {requestId : Text} {params : SamplingParams}
    {promptTokenIds : List TokenId} {child : Child σ} {processor : OutputProcessor σ}
    {outputs : List RequestOutput}
    (h : Solo requestId params promptTokenIds child processor outputs) :
    completionsOf outputs = child.chunks := by
  unfold completionsOf
  rw [List.flatMap_def, h.sent, ← List.flatMap_def]
  exact List.flatMap_singleton' child.chunks

theorem exists_last_of_solo {requestId : Text} {params : SamplingParams}
    {promptTokenIds : List TokenId} {child : Child σ} {processor : OutputProcessor σ}
    {outputs : List RequestOutput} {before : List CompletionOutput} {last : CompletionOutput}
    (h : Solo requestId params promptTokenIds child processor outputs)
    (hchunks : child.chunks = before ++ [last]) :
    ∃ earlier output, outputs = earlier ++ [output] ∧ output.outputs = [last] ∧
      output.promptTokenIds = promptTokenIds := by
  have hsent := h.sent
  rw [hchunks, List.map_append] at hsent
  obtain ⟨earlier, ends, rfl, -, hends⟩ := List.map_eq_append_iff.mp hsent
  obtain ⟨output, rfl, hone⟩ := List.map_eq_singleton_iff.mp hends
  exact ⟨earlier, output, rfl, hone,
    h.prompts output (List.mem_append_right _ (List.mem_singleton_self _))⟩

theorem sameGeneration_of_solo {detokenizing : Detokenizing σ} {requestId : Text}
    {params params' : SamplingParams} {promptTokenIds : List TokenId} {s w : RequestState σ}
    {session session' : Session σ} {timed : List (ℚ × EngineCoreOutput)}
    (hsolo : Solo requestId params promptTokenIds ⟨[], some s⟩ session.processor
      (reports requestId session.emitted))
    (hsolo' : Solo requestId params' promptTokenIds ⟨[], some w⟩ session'.processor
      (reports requestId session'.emitted))
    (hresults : MirrorResults
      ((Child.mk [] (some s)).follow detokenizing.toDecoder requestId timed).chunks
      ((Child.mk [] (some w)).follow detokenizing.toDecoder requestId timed).chunks) :
    SameGeneration
      (reports requestId (session.run detokenizing
        (timed.map fun o => .processOutput o.1 o.2)).emitted)
      (reports requestId (session'.run detokenizing
        (timed.map fun o => .processOutput o.1 o.2)).emitted) := by
  have hended := hsolo.run detokenizing timed
  have hended' := hsolo'.run detokenizing timed
  obtain ⟨counts, hcounts, hkeeps⟩ := @Solo.run_numCachedTokens _ detokenizing _ _ _ _ _ hsolo timed
  obtain ⟨counts', hcounts', hkeeps'⟩ :=
    @Solo.run_numCachedTokens _ detokenizing _ _ _ _ _ hsolo' timed
  have hnone : reports requestId session.emitted = [] := List.map_eq_nil_iff.mp hsolo.sent
  have hnone' : reports requestId session'.emitted = [] := List.map_eq_nil_iff.mp hsolo'.sent
  rw [hnone, List.map_nil, List.nil_append] at hcounts
  rw [hnone', List.map_nil, List.nil_append] at hcounts'
  dsimp only at hended hended'
  generalize reports requestId (session.run detokenizing
    (timed.map fun o => .processOutput o.1 o.2)).emitted = streamed at *
  generalize reports requestId (session'.run detokenizing
    (timed.map fun o => .processOutput o.1 o.2)).emitted = whole at *
  have hall := completionsOf_solo hended
  have hall' := completionsOf_solo hended'
  refine ⟨by rwa [hall, hall'], ?_⟩
  obtain ⟨before, last, made, final, hchunks, hfinals, -⟩ := hresults.ends
  obtain ⟨earlier, output, rfl, -, hprompt⟩ := exists_last_of_solo hended hchunks
  obtain ⟨earlier', output', rfl, hone, hprompt'⟩ := exists_last_of_solo hended' hfinals
  refine ⟨earlier, earlier', output, output', final, rfl, rfl, hone, ?_,
    hprompt.trans hprompt'.symm, ?_⟩
  · rw [hall', hfinals, List.getLast?_concat]
  · -- as many reports, of the same outputs
    have hlength : counts.length = counts'.length := by
      rw [← hcounts, ← hcounts', List.length_map, List.length_map]
      have hcount := congrArg List.length hended.sent
      have hcount' := congrArg List.length hended'.sent
      rw [List.length_map, List.length_map] at hcount hcount'
      rw [hcount, hcount', hresults.count]
    have hsame : counts = counts' :=
      (List.prefix_of_prefix_length_le hkeeps hkeeps' hlength.le).eq_of_length hlength
    rw [← hcounts, ← hcounts', List.map_append, List.map_append] at hsame
    exact (List.cons.inj (List.append_inj' hsame rfl).2).1

/-- What a request is answered when it is streamed matches what it is answered when it is not
exactly when every chunk with tokens has text, and some chunk has. -/
theorem responsesMatch_iff (detokenizing : Detokenizing σ) (before : List Call) (requestId : Text)
    (request : ResponsesRequest) (defaultMaxTokens : ℕ) (prompt : Option Text)
    (promptTokenIds : List TokenId) (arrivalTime : ℕ → ℚ) (decoderState : σ)
    (steps : List EngineStep) (header : Header) (itemId messageId messageId' : Text)
    (hunused : Unused ((Session.init σ).run detokenizing before).processor requestId 1)
    (hprompt : detokenizing.convertPrompt promptTokenIds = .ok decoderState) :
    let yielded (stream : Bool) := yieldedTo detokenizing before requestId
      ({ request with stream := stream }.toSamplingParams defaultMaxTokens) prompt promptTokenIds
      arrivalTime steps
    (yielded true).isSome = (yielded false).isSome ∧
    ∀ streamed whole, yielded true = some streamed → yielded false = some whole →
      ∃ response, responsesComplete header messageId' whole = .ok response ∧
        (ResponsesMatch (streamedResponse header itemId messageId streamed) response ↔
          (∀ completion ∈ completionsOf streamed,
              completion.text = [] → completion.tokenIds = []) ∧
            ∃ completion ∈ completionsOf streamed, completion.text ≠ []) := by
  intro yielded
  let params (stream : Bool) := { request with stream := stream }.toSamplingParams defaultMaxTokens
  let session : Session σ := { (Session.init σ).run detokenizing before with emitted := [] }
  let registered (stream : Bool) := session.register detokenizing requestId (params stream) prompt
    promptTokenIds arrivalTime
  have hsolo (stream : Bool) := @solo_register σ detokenizing requestId (params stream)
    promptTokenIds decoderState session prompt arrivalTime rfl rfl hunused hprompt
  have hended (stream : Bool) := (hsolo stream).run detokenizing (timed steps)
  have hserved (stream : Bool) := ((hended stream).served rfl).last
  have hyields (stream : Bool) : yielded stream = generate (reports requestId
      ((registered stream).run detokenizing
        ((timed steps).map fun o => .processOutput o.1 o.2)).emitted) := by
    rw [← Session.processSteps_eq]
    rfl
  have streams : Asked (params true).stop true 0 (OutputProcessor.AddArgs.state ⟨requestId, prompt,
      promptTokenIds, .generate (params true), arrivalTime 0, none, 0⟩ decoderState) :=
    ⟨⟨params true, rfl, rfl, rfl⟩, rfl⟩
  have waits : Asked (params true).stop false 0 (OutputProcessor.AddArgs.state ⟨requestId, prompt,
      promptTokenIds, .generate (params false), arrivalTime 0, none, 0⟩ decoderState) :=
    ⟨⟨params false, rfl, rfl, rfl⟩, rfl⟩
  -- a child that streams, and one that waits, over the same outputs
  have hmirror := @Mirror.follow σ detokenizing.toDecoder _ _ _ _
    (Mirror.start streams waits rfl rfl) requestId (timed steps)
  by_cases hfinished : (Child.follow detokenizing.toDecoder requestId ⟨[], some
      (OutputProcessor.AddArgs.state ⟨requestId, prompt, promptTokenIds, .generate (params false),
        arrivalTime 0, none, 0⟩ decoderState)⟩ (timed steps)).finished = true
  · have hall (stream : Bool) : yielded stream = some (reports requestId
        ((registered stream).run detokenizing
          ((timed steps).map fun o => .processOutput o.1 o.2)).emitted) := by
      have hlast := hserved stream
      rw [if_pos fun i hi => by cases stream with
        | false => exact hfinished
        | true => exact hmirror.finished.trans hfinished] at hlast
      obtain ⟨earlier, output, houtputs, hdone, hearlier, -⟩ := hlast
      rw [hyields]
      exact houtputs ▸ generate_concat hearlier hdone
    rw [hall, hall]
    refine ⟨rfl, fun streamed whole hstreamed hwhole => ?_⟩
    obtain rfl := Option.some.inj hstreamed
    obtain rfl := Option.some.inj hwhole
    exact (sameGeneration_of_solo (hsolo true) (hsolo false)
      (mirrorResults rfl streams waits rfl rfl requestId (timed steps) hfinished)).match_iff
  · -- neither of the two is over: nothing is yielded
    have hnone (stream : Bool) : yielded stream = none := by
      have hlast := hserved stream
      rw [if_neg fun hall => hfinished (by
        cases stream with
        | false => exact hall 0 Nat.one_pos
        | true => exact hmirror.finished.symm.trans (hall 0 Nat.one_pos))] at hlast
      rw [hyields]
      exact generate_of_unfinished hlast
    rw [hnone, hnone]
    exact ⟨rfl, fun streamed whole hstreamed => (by cases hstreamed)⟩

/-- With no stop string each token goes out with its text, and the two answers match. -/
theorem responsesMatch_iff_spoken :
    let detokenizing := spelling fun tokenId => if tokenId = 0 then ['a'] else ['c']
    let header : Header := ⟨['r'], 0, ['m']⟩
    let yielded (stream : Bool) := yieldedTo detokenizing [] ['r']
      ((⟨some 2, none, .none, false, stream⟩ : ResponsesRequest).toSamplingParams 8) none [7]
      (fun _ => 0) [(1, [⟨['r'], [0], none, none, [], 0, none⟩]),
        (2, [⟨['r'], [1], some .length, none, [], 0, none⟩])]
    ∃ streamed whole response, yielded true = some streamed ∧ yielded false = some whole ∧
      responsesComplete header ['n'] whole = .ok response ∧
      ResponsesMatch (streamedResponse header ['i'] ['m'] streamed) response := by
  intro detokenizing header yielded
  have hstreamed : (yielded true).map (fun streamed => (completionsOf streamed).map
      fun completion => (completion.text, completion.tokenIds)) =
        some [(['a'], [0]), (['c'], [1])] := by decide +kernel
  obtain ⟨streamed, hyields, hchunks⟩ := Option.map_eq_some_iff.mp hstreamed
  have hmatch := responsesMatch_iff detokenizing [] ['r'] ⟨some 2, none, .none, false, true⟩ 8
    none [7] (fun _ => 0) () [(1, [⟨['r'], [0], none, none, [], 0, none⟩]),
      (2, [⟨['r'], [1], some .length, none, [], 0, none⟩])] header ['i'] ['m'] ['n']
    ⟨rfl, fun _ _ => rfl, rfl, fun id state ref parent hstate => (by cases hstate)⟩ rfl
  obtain ⟨whole, hyields'⟩ := Option.isSome_iff_exists.mp
    (hmatch.1 ▸ Option.isSome_iff_exists.mpr ⟨streamed, hyields⟩)
  obtain ⟨response, hcomplete, hiff⟩ := hmatch.2 streamed whole hyields hyields'
  have hmem : ∀ completion ∈ completionsOf streamed,
      (completion.text, completion.tokenIds) ∈
        [((['a'] : Text), ([0] : List TokenId)), (['c'], [1])] := fun completion hmem =>
    hchunks ▸ List.mem_map_of_mem hmem
  refine ⟨streamed, whole, response, hyields, hyields', hcomplete, hiff.mpr ⟨?_, ?_⟩⟩
  · intro completion hcompletion hnil
    have h := hmem completion hcompletion
    rw [hnil] at h
    simp at h
  · have hfirst : (['a'], [0]) ∈ (completionsOf streamed).map
        fun completion => (completion.text, completion.tokenIds) := by
      rw [hchunks]
      exact List.mem_cons_self
    obtain ⟨completion, hcompletion, heq⟩ := List.mem_map.mp hfirst
    exact ⟨completion, hcompletion, (Prod.mk.inj heq).1 ▸ List.cons_ne_nil _ _⟩

/-- The text of a token may have to wait for the next one: its chunk has no text, and it is not
counted. -/
theorem held_back_uncounted :
    let detokenizing := spelling fun tokenId => if tokenId = 0 then ['a'] else ['c']
    let header : Header := ⟨['r'], 0, ['m']⟩
    let yielded (stream : Bool) := yieldedTo detokenizing [] ['r']
      ((⟨some 2, none, .list [['a', 'b']], false, stream⟩ : ResponsesRequest).toSamplingParams 8)
      none [7] (fun _ => 0) [(1, [⟨['r'], [0], none, none, [], 0, none⟩]),
        (2, [⟨['r'], [1], some .length, none, [], 0, none⟩])]
    (yielded true).map (fun streamed =>
        ((streamedResponse header ['i'] ['m'] streamed).outputText,
          (streamedResponse header ['i'] ['m'] streamed).usage)) =
        some (['a', 'c'], some ⟨1, 0, 1, 2⟩) ∧
      (yielded false).map (fun whole => (responsesComplete header ['n'] whole).toOption.map
        fun response => (response.outputText, response.usage)) =
        some (some (['a', 'c'], some ⟨1, 0, 2, 3⟩)) ∧
      ¬∀ streamed whole, yielded true = some streamed → yielded false = some whole →
        ∃ response, responsesComplete header ['n'] whole = .ok response ∧
          ResponsesMatch (streamedResponse header ['i'] ['m'] streamed) response := by
  intro detokenizing header yielded
  have hstreamed : (yielded true).map (fun streamed =>
      ((streamedResponse header ['i'] ['m'] streamed).outputText,
        (streamedResponse header ['i'] ['m'] streamed).usage)) =
      some (['a', 'c'], some ⟨1, 0, 1, 2⟩) := by decide +kernel
  have hwhole : (yielded false).map (fun whole =>
      (responsesComplete header ['n'] whole).toOption.map
        fun response => (response.outputText, response.usage)) =
      some (some (['a', 'c'], some ⟨1, 0, 2, 3⟩)) := by decide +kernel
  refine ⟨hstreamed, hwhole, fun h => ?_⟩
  obtain ⟨streamed, hyields, hsays⟩ := Option.map_eq_some_iff.mp hstreamed
  obtain ⟨whole, hyields', hsays'⟩ := Option.map_eq_some_iff.mp hwhole
  obtain ⟨response, hcomplete, hmatch⟩ := h streamed whole hyields hyields'
  rw [hcomplete] at hsays'
  have husage := (Prod.mk.inj (Option.some.inj hsays')).2
  rw [← hmatch.usage, (Prod.mk.inj hsays).2] at husage
  revert husage
  decide

end Request

end Pvllm.Frontend.OpenAI
