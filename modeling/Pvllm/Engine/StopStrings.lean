import Pvllm.Engine.Calls

/-!
Requests that end on a stop string.

The detokenizer finds a stop string that the engine core cannot see. The request ends in
the front end then: its last completion goes out, nothing of it is kept, and when the
engine core did not end it on the same output its id is handed out to be stopped there,
once.
-/

namespace Pvllm.Frontend

variable {σ : Type}

/-! ### The text of a turn -/

namespace RequestState

/-- A turn does to the text what `processChunk` does. -/
theorem turn_processChunk (state : RequestState σ) (decoder : Decoder σ)
    (params : SamplingParams) (now : ℚ) (output : EngineCoreOutput) :
    let turn := state.turn decoder params now output
    let chunk := processChunk decoder params.stop (params.outputKind = .delta) state.detokenizer
      ⟨output.newTokenIds, output.finishReason⟩
    turn.completion.text = chunk.1 ∧ turn.finishReason.isSome = chunk.2.1.isSome ∧
      turn.state.detokenizer = chunk.2.2 := by
  have hfinished (stopString : Option Text) :
      (if stopString.isSome && output.finishReason.isNone then some .stop
        else output.finishReason).isSome = (output.finishReason.isSome || stopString.isSome) := by
    cases stopString <;> cases output.finishReason <;> rfl
  unfold turn processChunk
  dsimp only
  rw [(RequestState.timed { state with
    detokenizer := (state.detokenizer.update decoder params.stop output.newTokenIds
      (output.finishReason = some .stop)).2
    numCachedTokens := output.numCachedTokens } now output).detokenizer, hfinished]
  refine ⟨rfl, ?_, rfl⟩
  split <;> simp [*]

end RequestState

/-! ### What the end of a request on a stop string is -/

/-- The detokenizer finds a stop string while an output is processed. -/
structure Matches (detokenizing : Detokenizing σ) (processor : OutputProcessor σ)
    (output : EngineCoreOutput) (state : RequestState σ) (params : SamplingParams)
    (stopString : Text) : Prop where
  find : processor.requestStates.find output.requestId = some state
  kind : state.kind = .generate params
  update : (state.detokenizer.update detokenizing.toDecoder params.stop output.newTokenIds
    (output.finishReason = some .stop)).1 = some stopString

/-- The text is truncated where the stop string was found, in the new part of the text, and no
other stop string ends before it. -/
def TruncatedAt (detokenizing : Detokenizing σ) (output : EngineCoreOutput)
    (state : RequestState σ) (params : SamplingParams) (stopString text : Text) : Prop :=
  let absorbed := state.detokenizer.absorb detokenizing.toDecoder params.stop output.newTokenIds
    (output.finishReason = some .stop)
  let newCharCount := absorbed.1.outputText.length - absorbed.2
  ∃ m : StopMatch, m.stopStr = stopString ∧
    Found absorbed.1.outputText newCharCount params.stop.stop m ∧
    (∀ s ∈ params.stop.stop, ∀ i, find absorbed.1.outputText s (searchStart newCharCount s) =
      some i → m.stopEnd ≤ i + s.length) ∧
    text = (absorbed.1.outputText.take (m.cut params.stop.includeStopStrInOutput)).drop
      (if params.outputKind = .delta then state.detokenizer.lastOutputTextOffset else 0)

/-- A completion is out: on its own, or gathered by its parent, who sends it on at once or with
the others. -/
def Delivered (before after : Session σ) (requestId : Text) (state : RequestState σ)
    (numCachedTokens : ℕ) (completion : CompletionOutput) : Prop :=
  match state.parentRequest.bind (before.processor.parents[·]?) with
  | none => after.emitted = before.emitted ++ [.request ⟨requestId, state.prompt,
      state.promptTokenIds, [completion], true, numCachedTokens⟩]
  | some parent => ∃ gathered : ParentRequest,
      state.parentRequest.bind (after.processor.parents[·]?) = some gathered ∧
      if parent.streaming then
        after.emitted = before.emitted ++ [.request ⟨parent.requestId, state.prompt,
          state.promptTokenIds, [completion], gathered.childRequests.isEmpty, numCachedTokens⟩]
      else
        gathered.outputAggregator[state.index]? = some (some completion) ∧
          after.emitted = before.emitted ++ if gathered.childRequests.isEmpty then
            [.request ⟨parent.requestId, state.prompt, state.promptTokenIds,
              gathered.outputAggregator.filterMap id, true, numCachedTokens⟩] else []

namespace Session

variable (detokenizing : Detokenizing σ)

def added (session : Session σ) : Call → Option Text
  | .addRequest requestId .. => some requestId
  | .addChild ref index .. =>
    (session.processor.parents[ref]?).map fun parent =>
      ParentRequest.childId parent.requestId index
  | _ => none

def Spares (requestId : Text) : Session σ → List Call → Prop
  | _, [] => True
  | session, c :: calls =>
    session.added c ≠ some requestId ∧ Spares requestId (session.call detokenizing c) calls

/-- The request a call ends on a stop string while the engine core still runs it. -/
def stoppedBy (session : Session σ) : Call → List Text
  | .processOutput now output =>
    match session.processor.requestStates.find output.requestId with
    | none => []
    | some state =>
      match state.kind with
      | .pool => []
      | .generate params =>
        if (state.prefilled.turn detokenizing.toDecoder params now output).stoppedHere then
          [output.requestId]
        else []
  | _ => []

def stopped : Session σ → List Call → List Text
  | _, [] => []
  | session, c :: calls =>
    session.stoppedBy detokenizing c ++ stopped (session.call detokenizing c) calls

end Session

/-- What is promised when a stop string is found: the last completion says so and is out, and
the request is gone, so that no later output of it has an effect. -/
structure Ends (detokenizing : Detokenizing σ) (session : Session σ) (now : ℚ)
    (output : EngineCoreOutput) (state : RequestState σ) (params : SamplingParams)
    (stopString : Text) : Prop where
  completion : ∃ completion : CompletionOutput,
    completion.finishReason = some .stop ∧
    completion.stopReason = some (.string stopString) ∧
    TruncatedAt detokenizing output state params stopString completion.text ∧
    Delivered session (session.call detokenizing (.processOutput now output)) output.requestId
      state output.numCachedTokens completion
  gone : ∀ later, (session.call detokenizing (.processOutput now output)).Spares detokenizing
    output.requestId later → ∀ now' output', output'.requestId = output.requestId →
      let after := (session.call detokenizing (.processOutput now output)).run detokenizing later
      after.call detokenizing (.processOutput now' output') = after

/-- In a run, every stop string that is found ends its request, and the ids handed out, with
those still to be, are those of the requests the engine core was running then. -/
def StopStringsEnd (detokenizing : Detokenizing σ) (calls : List Call) : Prop :=
  (∀ before now output later, calls = before ++ .processOutput now output :: later →
    ∀ state params stopString,
      Matches detokenizing ((Session.init σ).run detokenizing before).processor output state
        params stopString →
      Ends detokenizing ((Session.init σ).run detokenizing before) now output state params
        stopString) ∧
  ((Session.init σ).run detokenizing calls).handed ++
      ((Session.init σ).run detokenizing calls).processor.stoppedByString =
    (Session.init σ).stopped detokenizing calls

/-! ### A request that is gone stays gone -/

namespace OutputProcessor

variable {detokenizing : Detokenizing σ} {processor : OutputProcessor σ} {id : Text}

theorem find_tryAdd {args : AddArgs} (h : args.requestId ≠ id) :
    (processor.tryAdd detokenizing args).requestStates.find id =
      processor.requestStates.find id := by
  unfold tryAdd
  split
  · rename_i processor' hok
    unfold addRequest at hok
    split at hok
    · cases hok
    split at hok
    · cases hok
    obtain rfl := Except.ok.inj hok
    exact Dict.find_store_of_ne _ _ h.symm
  · rfl

theorem find_abortRequest (requestId : Text) (h : processor.requestStates.find id = none) :
    (processor.abortRequest requestId).2.requestStates.find id = none := by
  have hdelete : (processor.requestStates.delete requestId).find id = none := by
    rw [Dict.find_delete, h]
    split <;> rfl
  unfold abortRequest
  dsimp only
  split
  · split
    · exact hdelete
    · split
      · exact hdelete
      · split <;> exact hdelete
  · split
    · exact h
    · split
      · exact h
      · rw [Dict.find_foldl_delete, h]
        split <;> rfl

theorem find_abortRequests (requestIds : List Text)
    (h : processor.requestStates.find id = none) :
    (processor.abortRequests requestIds).2.requestStates.find id = none := by
  induction requestIds generalizing processor with
  | nil => exact h
  | cons requestId rest ih => exact ih (find_abortRequest requestId h)

/-- Another request's output leaves a request as it is. -/
theorem find_processOutput {now : ℚ} {stats : IterationStats} {output : EngineCoreOutput}
    (h : output.requestId ≠ id) :
    (processor.processOutput detokenizing now stats output).2.1.requestStates.find id =
      processor.requestStates.find id := by
  cases hstate : processor.requestStates.find output.requestId with
  | none => rw [processOutput_unknown hstate]
  | some state =>
      cases hkind : state.kind with
      | pool =>
          rw [processOutput_pool hstate hkind]
          dsimp only
          split
          · exact Dict.find_store_of_ne _ _ h.symm
          · rw [retire_requestStates, Dict.find_delete, if_neg h.symm]
            exact Dict.find_store_of_ne _ _ h.symm
      | generate params =>
          rw [processOutput_generate hstate hkind]
          dsimp only
          split
          · rw [retire_requestStates, Dict.find_delete, if_neg h.symm, gather_requestStates]
            exact Dict.find_store_of_ne _ _ h.symm
          · rw [gather_requestStates]
            exact Dict.find_store_of_ne _ _ h.symm

end OutputProcessor

namespace Session

variable {detokenizing : Detokenizing σ} {session : Session σ} {id : Text}

theorem call_unknown {now : ℚ} {output : EngineCoreOutput}
    (h : session.processor.requestStates.find output.requestId = none) :
    session.call detokenizing (.processOutput now output) = session := by
  rw [call_processOutput, OutputProcessor.processOutput_unknown h]
  dsimp only
  rw [List.append_nil]

theorem find_call (c : Call) (hadded : session.added c ≠ some id)
    (h : session.processor.requestStates.find id = none) :
    (session.call detokenizing c).processor.requestStates.find id = none := by
  cases c with
  | addRequest requestId prompt promptTokenIds kind arrivalTime =>
      exact (OutputProcessor.find_tryAdd fun heq => hadded (congrArg some heq)).trans h
  | newParent requestId params => exact h
  | addChild ref index prompt promptTokenIds arrivalTime =>
      replace hadded : (session.processor.parents[ref]?).map (fun parent =>
          ParentRequest.childId parent.requestId index) ≠ some id := hadded
      show (OutputProcessor.addChild ..).requestStates.find id = none
      unfold OutputProcessor.addChild
      split
      · exact h
      rename_i parent hparent
      rw [hparent] at hadded
      split
      · exact (OutputProcessor.find_tryAdd fun heq => hadded (congrArg some heq)).trans h
      · exact h
  | abortRequests requestIds => exact OutputProcessor.find_abortRequests requestIds h
  | processOutput now output =>
      by_cases heq : output.requestId = id
      · rw [call_unknown (heq ▸ h)]
        exact h
      · exact (OutputProcessor.find_processOutput heq).trans h
  | takeStoppedByString => exact h

theorem find_run (calls : List Call) (hspares : session.Spares detokenizing id calls)
    (h : session.processor.requestStates.find id = none) :
    (session.run detokenizing calls).processor.requestStates.find id = none := by
  induction calls generalizing session with
  | nil => exact h
  | cons c calls ih => exact ih hspares.2 (find_call c hspares.1 h)

end Session

/-! ### The end of a request on a stop string -/

/-- Once finished nothing is held back. -/
theorem getNextOutputText_finished (params : StopParams) (d : Detokenizer σ) (delta : Bool) :
    (d.getNextOutputText params true delta).1 =
      d.outputText.drop (if delta then d.lastOutputTextOffset else 0) := by
  cases delta with
  | false => rfl
  | true =>
      unfold Detokenizer.getNextOutputText
      simp only [if_true, Int.sub_zero, Int.toNat_natCast, List.take_length]
      split
      · rfl
      · rename_i hle
        exact (List.drop_eq_nil_of_le (by omega)).symm

section End

variable {detokenizing : Detokenizing σ} {session : Session σ} {now : ℚ}
  {output : EngineCoreOutput} {state : RequestState σ} {params : SamplingParams}
  {stopString : Text}

theorem turn_matches (now : ℚ)
    (h : Matches detokenizing session.processor output state params stopString) :
    let turn := state.prefilled.turn detokenizing.toDecoder params now output
    turn.finishReason = output.finishReason.or (some .stop) ∧
      turn.stoppedHere = output.finishReason.isNone ∧
      turn.completion.stopReason = some (.string stopString) ∧
      turn.completion.index = state.index ∧
      turn.state.numCachedTokens = output.numCachedTokens ∧
      TruncatedAt detokenizing output state params stopString turn.completion.text := by
  have hspec := state.detokenizer.update_spec detokenizing.toDecoder params.stop
    output.newTokenIds (output.finishReason = some .stop)
  have hfound := h.update
  rcases hspec with ⟨hupdate, -⟩ | ⟨m, hm, -, hfirst, hupdate⟩
  · rw [hupdate] at hfound
    cases hfound
  rw [hupdate] at hfound
  have htimed := RequestState.timed { state.prefilled with
    detokenizer := (state.detokenizer.update detokenizing.toDecoder params.stop
      output.newTokenIds (output.finishReason = some .stop)).2
    numCachedTokens := output.numCachedTokens } now output
  have habsorb := state.detokenizer.absorb_absorbed detokenizing.toDecoder params.stop
    output.newTokenIds (output.finishReason = some .stop)
  have hprefilled : state.prefilled.detokenizer = state.detokenizer := rfl
  have hfinished : (if (some m.stopStr).isSome && output.finishReason.isNone then
      some FinishReason.stop else output.finishReason) = output.finishReason.or (some .stop) := by
    cases output.finishReason <;> rfl
  have hsome : (output.finishReason.or (some .stop)).isSome = true := by
    cases output.finishReason <;> rfl
  unfold RequestState.turn
  dsimp only
  rw [hprefilled]
  rw [hupdate] at htimed ⊢
  dsimp only at htimed ⊢
  rw [hfinished, hsome, htimed.detokenizer, htimed.index, getNextOutputText_finished]
  refine ⟨rfl, rfl, ?_, rfl, htimed.numCachedTokens, m, ?_, hm, hfirst, ?_⟩
  · exact congrArg (fun s => some (StopReason.string s)) (Option.some.inj hfound)
  · exact Option.some.inj hfound
  · rw [habsorb.offset]
    simp

theorem collect_finished {parent : ParentRequest} {requestId : Text}
    {completion : CompletionOutput} (hchild : requestId ∈ parent.childRequests)
    (hfinished : completion.finishReason.isSome = true)
    (hslot : parent.streaming = false → completion.index < parent.outputAggregator.length) :
    let gathered := parent.collect requestId completion
    gathered.2.1 = gathered.2.2.childRequests.isEmpty ∧
      if parent.streaming then gathered.1 = [completion]
      else gathered.2.2.outputAggregator[completion.index]? = some (some completion) ∧
        gathered.1 = if gathered.2.2.childRequests.isEmpty then
          gathered.2.2.outputAggregator.filterMap id else [] := by
  have hkind : (parent.discard requestId).streaming = parent.streaming := rfl
  unfold ParentRequest.collect
  dsimp only
  rw [if_pos hfinished, hkind]
  cases hstreaming : parent.streaming with
  | true => exact ⟨rfl, by simp [hfinished, hchild]⟩
  | false =>
      refine ⟨rfl, ?_, rfl⟩
      show (parent.outputAggregator.set completion.index (some completion))[completion.index]? = _
      rw [List.getElem?_set, if_pos rfl, if_pos (hslot hstreaming)]

theorem delivered_of_matches (hsound : session.processor.Sound)
    (h : Matches detokenizing session.processor output state params stopString) :
    Delivered session (session.call detokenizing (.processOutput now output)) output.requestId
      state output.numCachedTokens
      (state.prefilled.turn detokenizing.toDecoder params now output).completion := by
  obtain ⟨hreason, -, -, hindex, hcached, -⟩ := turn_matches now h
  have hsame := (state.prefilled.turn_same detokenizing.toDecoder params now output).trans
    state.prefilled_same
  rw [Session.call_processOutput, OutputProcessor.processOutput_generate h.find h.kind]
  generalize hturn : state.prefilled.turn detokenizing.toDecoder params now output = turn at *
  have hcompletion : turn.completion.finishReason = turn.finishReason := hturn ▸ rfl
  have hfinished : turn.finishReason.isSome = true := by
    rw [hreason]
    cases output.finishReason <;> rfl
  unfold Delivered
  dsimp only
  rw [if_pos hfinished, OutputProcessor.retire_parents, hsame.prompt, hsame.promptTokenIds, hcached]
  cases href : state.parentRequest with
  | none =>
      rw [OutputProcessor.gather_none (hsame.parentRequest.trans href)]
      simp [hcompletion, hfinished]
  | some ref =>
      obtain ⟨parent, hparent, hchild, -, hlt⟩ := hsound.child _ _ _ h.find href
      have hlength := (List.getElem?_eq_some_iff.mp hparent).1
      obtain ⟨hdone, hgathered⟩ := collect_finished hchild (hcompletion ▸ hfinished)
        (fun hstreaming => by rw [hindex, hsound.slots ref parent hparent hstreaming]; exact hlt)
      rw [OutputProcessor.gather_some (hsame.parentRequest.trans href)
        (show (session.processor.recordTurn output.requestId turn).parents[ref]? = some parent
          from hparent), Option.bind_some, hparent]
      dsimp only
      generalize parent.collect output.requestId turn.completion = collected at hdone hgathered
      refine ⟨collected.2.2, ?_, ?_⟩
      · rw [Option.bind_some, List.getElem?_set, if_pos rfl]
        exact if_pos hlength
      · split at hgathered
        · rename_i hstreaming
          rw [if_pos hstreaming, hgathered, hdone]
          rfl
        · rename_i hstreaming
          rw [if_neg hstreaming, hdone, hgathered.2, ← hindex]
          refine ⟨hgathered.1, ?_⟩
          cases collected.2.2.childRequests.isEmpty <;> simp

theorem find_of_matches
    (h : Matches detokenizing session.processor output state params stopString) :
    (session.call detokenizing
      (.processOutput now output)).processor.requestStates.find output.requestId = none := by
  obtain ⟨hreason, -⟩ := turn_matches now h
  rw [Session.call_processOutput, OutputProcessor.processOutput_generate h.find h.kind]
  dsimp only
  rw [if_pos (by rw [hreason]; cases output.finishReason <;> rfl),
    OutputProcessor.retire_requestStates, Dict.find_delete, if_pos rfl]

/-- What a stop string ends, when the engine core gives no other reason. -/
theorem ends_of_matches (hsound : session.processor.Sound)
    (h : Matches detokenizing session.processor output state params stopString)
    (hreason : output.finishReason = none ∨ output.finishReason = some .stop) :
    Ends detokenizing session now output state params stopString := by
  obtain ⟨hfinish, -, hstop, -, -, htruncated⟩ := turn_matches now h
  refine ⟨⟨_, ?_, hstop, htruncated, delivered_of_matches hsound h⟩,
    fun later hspares now' output' hid => ?_⟩
  · refine (RequestState.turn_finishReason ..).trans (hfinish.trans ?_)
    rcases hreason with hreason | hreason <;> rw [hreason] <;> rfl
  · apply Session.call_unknown
    rw [hid]
    exact Session.find_run later hspares (find_of_matches h)

theorem delivered_unique {before after : Session σ} {requestId : Text} {numCachedTokens : ℕ}
    {completion completion' : CompletionOutput}
    (h : Delivered before after requestId state numCachedTokens completion)
    (h' : Delivered before after requestId state numCachedTokens completion') :
    completion = completion' := by
  unfold Delivered at h h'
  cases hparent : state.parentRequest.bind (before.processor.parents[·]?) with
  | none =>
      rw [hparent] at h h'
      have heq := List.append_cancel_left (h.symm.trans h')
      simpa using heq
  | some parent =>
      rw [hparent] at h h'
      obtain ⟨gathered, hgathered, h⟩ := h
      obtain ⟨gathered', hgathered', h'⟩ := h'
      obtain rfl := Option.some.inj (hgathered.symm.trans hgathered')
      by_cases hstreaming : parent.streaming = true
      · rw [if_pos hstreaming] at h h'
        have heq := List.append_cancel_left (h.symm.trans h')
        simpa using heq
      · rw [if_neg hstreaming] at h h'
        exact Option.some.inj (Option.some.inj (h.1.symm.trans h'.1))

theorem reason_of_ends (hsound : session.processor.Sound)
    (h : Matches detokenizing session.processor output state params stopString)
    (hends : Ends detokenizing session now output state params stopString) :
    output.finishReason = none ∨ output.finishReason = some .stop := by
  obtain ⟨completion, hfinish, -, -, hdelivered⟩ := hends.completion
  obtain rfl := delivered_unique hdelivered (delivered_of_matches hsound h)
  obtain ⟨hreason, -⟩ := turn_matches now h
  have hstop := (RequestState.turn_finishReason ..).symm.trans hfinish
  rw [hreason] at hstop
  cases hfinished : output.finishReason with
  | none => exact Or.inl rfl
  | some reason =>
      rw [hfinished] at hstop
      exact Or.inr hstop

end End

/-! ### Runs -/

namespace Session

variable {detokenizing : Detokenizing σ} {session : Session σ}

theorem stoppedByString_tryAdd {processor : OutputProcessor σ} (args : OutputProcessor.AddArgs) :
    (processor.tryAdd detokenizing args).stoppedByString = processor.stoppedByString := by
  unfold OutputProcessor.tryAdd
  split
  · rename_i processor' hok
    unfold OutputProcessor.addRequest at hok
    split at hok
    · cases hok
    split at hok
    · cases hok
    obtain rfl := Except.ok.inj hok
    rfl
  · rfl

theorem stoppedByString_abortRequest {processor : OutputProcessor σ} (requestId : Text) :
    (processor.abortRequest requestId).2.stoppedByString = processor.stoppedByString := by
  unfold OutputProcessor.abortRequest
  dsimp only
  split
  · split
    · rfl
    · split
      · rfl
      · split <;> rfl
  · split
    · rfl
    · split <;> rfl

theorem stoppedByString_abortRequests {processor : OutputProcessor σ} (requestIds : List Text) :
    (processor.abortRequests requestIds).2.stoppedByString = processor.stoppedByString := by
  induction requestIds generalizing processor with
  | nil => rfl
  | cons requestId rest ih => exact ih.trans (stoppedByString_abortRequest requestId)

theorem stoppedByString_processOutput (now : ℚ) (output : EngineCoreOutput) :
    (session.processor.processOutput detokenizing now session.stats output).2.1.stoppedByString =
      session.processor.stoppedByString ++
        session.stoppedBy detokenizing (.processOutput now output) := by
  unfold stoppedBy
  cases hstate : session.processor.requestStates.find output.requestId with
  | none =>
      rw [OutputProcessor.processOutput_unknown hstate]
      simp [hstate]
  | some state =>
      cases hkind : state.kind with
      | pool =>
          rw [OutputProcessor.processOutput_pool hstate hkind]
          dsimp only
          split <;> simp [hstate, hkind]
      | generate params =>
          rw [OutputProcessor.processOutput_generate hstate hkind]
          dsimp only
          split
          · rw [OutputProcessor.retire_stoppedByString, OutputProcessor.gather_stoppedByString]
            simp [OutputProcessor.recordTurn, hstate, hkind]
          · rw [OutputProcessor.gather_stoppedByString]
            simp [OutputProcessor.recordTurn, hstate, hkind]

theorem handed_call (c : Call) :
    (session.call detokenizing c).handed ++
        (session.call detokenizing c).processor.stoppedByString =
      session.handed ++ session.processor.stoppedByString ++
        session.stoppedBy detokenizing c := by
  cases c with
  | addRequest requestId prompt promptTokenIds kind arrivalTime =>
      show session.handed ++ (OutputProcessor.tryAdd ..).stoppedByString = _
      rw [stoppedByString_tryAdd]
      exact (List.append_nil _).symm
  | newParent requestId params => exact (List.append_nil _).symm
  | addChild ref index prompt promptTokenIds arrivalTime =>
      show session.handed ++ (OutputProcessor.addChild ..).stoppedByString = _
      unfold OutputProcessor.addChild
      split
      · exact (List.append_nil _).symm
      · split
        · rw [stoppedByString_tryAdd]
          exact (List.append_nil _).symm
        · exact (List.append_nil _).symm
  | abortRequests requestIds =>
      show session.handed ++ (OutputProcessor.abortRequests ..).2.stoppedByString = _
      rw [stoppedByString_abortRequests]
      exact (List.append_nil _).symm
  | processOutput now output =>
      rw [call_processOutput]
      dsimp only
      rw [stoppedByString_processOutput, List.append_assoc]
  | takeStoppedByString =>
      show session.handed ++ session.processor.stoppedByString ++ [] = _ ++ []
      rfl

/-- The ids handed out, with those still to be, are those stopped while the engine core ran
them. -/
theorem handed_run (calls : List Call) :
    (session.run detokenizing calls).handed ++
        (session.run detokenizing calls).processor.stoppedByString =
      session.handed ++ session.processor.stoppedByString ++
        session.stopped detokenizing calls := by
  induction calls generalizing session with
  | nil => simp [stopped]
  | cons c calls ih =>
      rw [stopped, ← List.append_assoc, ← handed_call]
      exact ih

end Session

/-- Every stop string that is found ends its request as promised, exactly when the engine core
gives no other reason for an end on the same output. -/
theorem stopStringsEnd_iff (detokenizing : Detokenizing σ) (calls : List Call) :
    StopStringsEnd detokenizing calls ↔
      ∀ before now output later, calls = before ++ .processOutput now output :: later →
        ∀ state params stopString,
          Matches detokenizing ((Session.init σ).run detokenizing before).processor output state
            params stopString →
          output.finishReason = none ∨ output.finishReason = some .stop := by
  constructor
  · rintro ⟨hends, -⟩ before now output later rfl state params stopString hmatches
    exact reason_of_ends (Session.sound_run OutputProcessor.sound_init before) hmatches
      (hends before now output later rfl state params stopString hmatches)
  · intro hreason
    refine ⟨fun before now output later heq state params stopString hmatches => ?_, ?_⟩
    · exact ends_of_matches (Session.sound_run OutputProcessor.sound_init before) hmatches
        (hreason before now output later heq state params stopString hmatches)
    · exact Session.handed_run calls

def spelling (spell : TokenId → Text) : Detokenizing Unit where
  toDecoder := spelled spell
  convertPrompt _ := .ok ()

/-- The last token that `max_tokens` allows completes a stop string: the text is truncated
there, and the reason stays the length. -/
theorem stop_at_length :
    let detokenizing := spelling fun tokenId => if tokenId = 0 then ['a', 'b'] else ['c', '.']
    let params : SamplingParams := ⟨1, none, .cumulative, some 2, ⟨[['.']], 0, false⟩⟩
    let calls : List Call := [.addRequest ['r'] none [7] (.generate params) 0,
      .processOutput 1 ⟨['r'], [0], none, none, [], 0, none⟩,
      .processOutput 2 ⟨['r'], [1], some .length, none, [], 0, none⟩]
    ((Session.init Unit).run detokenizing calls).emitted = [
        .request ⟨['r'], none, [7], [⟨0, ['a', 'b'], [0], none, none⟩], false, 0⟩,
        .request ⟨['r'], none, [7],
          [⟨0, ['a', 'b', 'c'], [0, 1], some .length, some (.string ['.'])⟩], true, 0⟩] ∧
      ¬ StopStringsEnd detokenizing calls := by
  intro detokenizing params calls
  refine ⟨by decide +kernel, fun h => ?_⟩
  have hmatches : Matches detokenizing
      ((Session.init Unit).run detokenizing (calls.take 2)).processor
      ⟨['r'], [1], some .length, none, [], 0, none⟩ _ params ['.'] :=
    ⟨rfl, rfl, by decide +kernel⟩
  have hreason := reason_of_ends (Session.sound_run OutputProcessor.sound_init _) hmatches
    (h.1 (calls.take 2) 2 _ [] rfl _ _ _ hmatches)
  revert hreason
  decide

end Pvllm.Frontend
