import Pvllm.Engine.FanIn

/-!
One call of `generate`, from the outputs of the engine to what it yields.

The request is registered under its own id, or as the children of a parent. The outputs
of each engine step go through `process_outputs`, and what comes out under the client's
id is yielded, up to the output that is finished. `Served` says what that is, by what
the children make on their own.
-/

namespace Pvllm.Frontend

variable {σ : Type}

abbrev EngineStep := ℚ × List EngineCoreOutput

namespace Session

variable (detokenizing : Detokenizing σ) (session : Session σ)

/-- The requests of a call of `generate`, registered one after another. -/
def register (requestId : Text) (params : SamplingParams) (prompt : Option Text)
    (promptTokenIds : List TokenId) (arrivalTime : ℕ → ℚ) : Session σ :=
  if 1 < params.n then
    session.run detokenizing (.newParent requestId params ::
      fanOut session.processor.parents.length params.n prompt promptTokenIds arrivalTime)
  else
    session.run detokenizing
      [.addRequest requestId prompt promptTokenIds (.generate params) (arrivalTime 0)]

/-- The outputs of each step go through `process_outputs`. -/
def processSteps (steps : List EngineStep) : Session σ :=
  steps.foldl (fun session step =>
    let (emitted, processor, stats) := OutputProcessor.processOutputs detokenizing step.1 step.2
      session.processor session.stats
    { session with processor, stats, emitted := session.emitted ++ emitted }) session

end Session

/-- The loop of `generate` over its queue: what it yields, up to the output that is finished;
nothing yet while it waits for more. -/
def generate : List RequestOutput → Option (List RequestOutput)
  | [] => none
  | output :: rest =>
    if output.finished then some [output] else (generate rest).map (output :: ·)

def timed (steps : List EngineStep) : List (ℚ × EngineCoreOutput) :=
  steps.flatMap fun step => step.2.map (step.1, ·)

theorem Session.processSteps_eq (detokenizing : Detokenizing σ) (session : Session σ)
    (steps : List EngineStep) :
    session.processSteps detokenizing steps =
      session.run detokenizing ((timed steps).map fun o => .processOutput o.1 o.2) := by
  induction steps generalizing session with
  | nil => rfl
  | cons step rest ih =>
      have hstep : (timed (step :: rest)).map (fun o => Call.processOutput o.1 o.2) =
          step.2.map (Call.processOutput step.1) ++
            (timed rest).map fun o => Call.processOutput o.1 o.2 := by
        simp [timed, Function.comp_def]
      rw [hstep, run_append, run_processOutputs]
      exact ih _

/-! ### What is served -/

/-- The engine's id of a child: the request's own, when there is only one. -/
def engineId (requestId : Text) (n i : ℕ) : Text :=
  if 1 < n then ParentRequest.childId requestId i else requestId

/-- The ids of a request are not in use. -/
structure Unused (processor : OutputProcessor σ) (requestId : Text) (n : ℕ) : Prop where
  own : processor.requestStates.find requestId = none
  children : ∀ i < n, processor.requestStates.find (engineId requestId n i) = none
  parent : processor.parentRequests.find requestId = none
  reports : ∀ id state ref parent, processor.requestStates.find id = some state →
    state.parentRequest = some ref → processor.parents[ref]? = some parent →
    parent.requestId ≠ requestId

def Child.follow (decoder : Decoder σ) (id : Text) (child : Child σ)
    (outputs : List (ℚ × EngineCoreOutput)) : Child σ :=
  outputs.foldl (fun child o =>
    if o.2.requestId = id then child.output decoder o.1 o.2 else child) child

/-- What a call of `generate` is given, by what the children have made. -/
structure Served (params : SamplingParams) (promptTokenIds : List TokenId)
    (children : ℕ → Child σ) (outputs : List RequestOutput) : Prop where
  prompts : ∀ output ∈ outputs, output.promptTokenIds = promptTokenIds
  delta : params.outputKind = .delta →
    (∀ output ∈ outputs, ∀ completion ∈ output.outputs, completion.index < params.n) ∧
    ∀ i < params.n, (outputs.flatMap (·.outputs)).filter (·.index = i) = (children i).chunks
  last : if ∀ i < params.n, (children i).finished = true then
      ∃ before output, outputs = before ++ [output] ∧ output.finished = true ∧
        (∀ earlier ∈ before, earlier.finished = false) ∧
        (params.outputKind ≠ .delta → output.outputs.map some =
          (List.range params.n).map fun i => (children i).chunks.getLast?)
    else ∀ output ∈ outputs, output.finished = false

theorem generate_of_unfinished {outputs : List RequestOutput}
    (h : ∀ output ∈ outputs, output.finished = false) : generate outputs = none := by
  induction outputs with
  | nil => rfl
  | cons output rest ih =>
      obtain ⟨hfirst, hrest⟩ := List.forall_mem_cons.mp h
      unfold generate
      rw [hfirst, ih hrest]
      rfl

theorem generate_concat {before : List RequestOutput} {output : RequestOutput}
    (hbefore : ∀ earlier ∈ before, earlier.finished = false) (h : output.finished = true) :
    generate (before ++ [output]) = some (before ++ [output]) := by
  induction before with
  | nil =>
      show (if output.finished then _ else _) = _
      rw [if_pos h]
      rfl
  | cons earlier rest ih =>
      obtain ⟨hfirst, hrest⟩ := List.forall_mem_cons.mp hbefore
      show (if earlier.finished then _ else _) = _
      rw [hfirst, if_neg Bool.false_ne_true]
      show (generate (rest ++ [output])).map _ = _
      rw [ih hrest]
      rfl

/-! ### A request for several completions -/

theorem Child.follow_cons (decoder : Decoder σ) (id : Text) (child : Child σ)
    (o : ℚ × EngineCoreOutput) (rest : List (ℚ × EngineCoreOutput)) :
    child.follow decoder id (o :: rest) =
      (if o.2.requestId = id then child.output decoder o.1 o.2 else child).follow decoder id rest :=
  rfl

theorem Fan.run_children (detokenizing : Detokenizing σ) (requestId : Text) (fan : Fan σ)
    (outputs : List (ℚ × EngineCoreOutput)) (i : ℕ) :
    (fan.run detokenizing requestId (outputs.map fun o => .processOutput o.1 o.2)).children i =
      (fan.children i).follow detokenizing.toDecoder (ParentRequest.childId requestId i)
        outputs := by
  induction outputs generalizing fan with
  | nil => rfl
  | cons o rest ih => exact ih (fan.step detokenizing requestId (.processOutput o.1 o.2))

theorem Fan.finished_iff {fan : Fan σ} {n : ℕ} :
    fan.finished n = true ↔ ∀ i < n, (fan.children i).finished = true := by
  simp [Fan.finished]

/-- What a parent gathers is what is served. -/
theorem Gathered.served {params : SamplingParams} {prompt : Option Text}
    {promptTokenIds : List TokenId} {fan : Fan σ} {outputs : List RequestOutput}
    (h : Gathered params prompt promptTokenIds fan outputs) :
    Served params promptTokenIds fan.children outputs where
  prompts output houtput := (h.prompts output houtput).2
  delta hdelta := by
    refine ⟨fun output houtput completion hcompletion => ?_, (h.delta hdelta).2⟩
    obtain ⟨one, hone, hindex⟩ := (h.delta hdelta).1 output houtput
    rw [hone, List.mem_singleton] at hcompletion
    rw [hcompletion]
    exact hindex
  last := by
    have hlast := h.last
    split
    · rename_i hall
      rw [if_pos (Fan.finished_iff.mpr hall)] at hlast
      obtain ⟨before, output, rfl, hfinished, hbefore⟩ := hlast
      refine ⟨before, output, rfl, hfinished, hbefore, fun hkind => ?_⟩
      have hgathered := h.gathered hkind
      rw [if_pos (Fan.finished_iff.mpr hall), List.map_append, List.map_singleton,
        List.append_eq_singleton_iff] at hgathered
      rcases hgathered with ⟨-, hone⟩ | ⟨-, hnil⟩
      · exact (List.cons.inj hone).1
      · cases hnil
    · rename_i hsome
      rwa [if_neg fun hall => hsome (Fan.finished_iff.mp hall)] at hlast

/-! ### A request for one completion -/

/-- A request on its own: what it has made has been sent on as it came. -/
structure Solo (requestId : Text) (params : SamplingParams) (promptTokenIds : List TokenId)
    (child : Child σ) (processor : OutputProcessor σ) (outputs : List RequestOutput) : Prop where
  live : processor.requestStates.find requestId = child.state
  running : ∀ state, child.state = some state → child.finished = false ∧
    state.kind = .generate params ∧ state.promptTokenIds = promptTokenIds ∧
    state.parentRequest = none ∧ state.index = 0
  gone : child.state = none → child.finished = true
  foreign : ∀ id state ref parent, processor.requestStates.find id = some state →
    state.parentRequest = some ref → processor.parents[ref]? = some parent →
    parent.requestId ≠ requestId
  sent : outputs.map (·.outputs) = child.chunks.map ([·])
  flags : outputs.map (·.finished) = child.chunks.map (·.finishReason.isSome)
  prompts : ∀ output ∈ outputs, output.promptTokenIds = promptTokenIds
  indices : ∀ completion ∈ child.chunks, completion.index = 0
  going : ∀ completion ∈ child.chunks.dropLast, completion.finishReason = none

section Solo

variable {detokenizing : Detokenizing σ} {requestId : Text} {params : SamplingParams}
  {promptTokenIds : List TokenId} {child : Child σ} {processor : OutputProcessor σ}
  {outputs : List RequestOutput}

/-- Once its request is over a child makes nothing. -/
theorem Child.output_of_none (decoder : Decoder σ) (now : ℚ) (output : EngineCoreOutput)
    (h : child.state = none) : child.output decoder now output = child := by
  unfold Child.output
  rw [h]

theorem Child.output_of_some (decoder : Decoder σ) (now : ℚ) (output : EngineCoreOutput)
    {state : RequestState σ} (hstate : child.state = some state)
    (hkind : state.kind = .generate params) :
    let turn := state.prefilled.turn decoder params now output
    child.output decoder now output = ⟨child.chunks ++ [turn.completion],
      if turn.finishReason.isSome then none else some turn.state⟩ := by
  unfold Child.output
  rw [hstate]
  dsimp only
  rw [hkind]

theorem gather_reportId (processor : OutputProcessor σ) (state : RequestState σ) (id : Text)
    (completion : CompletionOutput) :
    (processor.gather state id completion).2.1 = id ∨
      ∃ ref parent, state.parentRequest = some ref ∧ processor.parents[ref]? = some parent ∧
        (processor.gather state id completion).2.1 = parent.requestId := by
  cases href : state.parentRequest with
  | none =>
      rw [OutputProcessor.gather_none href]
      exact Or.inl rfl
  | some ref =>
      cases hparent : processor.parents[ref]? with
      | none =>
          refine Or.inl ?_
          unfold OutputProcessor.gather
          rw [href]
          dsimp only
          rw [hparent]
      | some parent =>
          rw [OutputProcessor.gather_some href hparent]
          exact Or.inr ⟨ref, parent, rfl, hparent, rfl⟩

/-- The output of a request that is neither the client's nor a child of it goes to another
client. -/
theorem reports_processOutput {output : EngineCoreOutput} (hne : output.requestId ≠ requestId)
    (hforeign : ∀ id state ref parent, processor.requestStates.find id = some state →
      state.parentRequest = some ref → processor.parents[ref]? = some parent →
      parent.requestId ≠ requestId) (now : ℚ) (stats : IterationStats) :
    reports requestId (processor.processOutput detokenizing now stats output).1 = [] := by
  cases hstate : processor.requestStates.find output.requestId with
  | none =>
      rw [OutputProcessor.processOutput_unknown hstate]
      rfl
  | some state =>
      cases hkind : state.kind with
      | pool =>
          rw [OutputProcessor.processOutput_pool hstate hkind]
          dsimp only
          split <;> rfl
      | generate params' =>
          rw [OutputProcessor.processOutput_generate hstate hkind]
          dsimp only
          split
          · rfl
          refine reports_request ?_
          dsimp only
          have hsame := (state.prefilled.turn_same detokenizing.toDecoder params' now output).trans
            state.prefilled_same
          rcases gather_reportId (processor.recordTurn output.requestId
            (state.prefilled.turn detokenizing.toDecoder params' now output))
            (state.prefilled.turn detokenizing.toDecoder params' now output).state
            output.requestId
            (state.prefilled.turn detokenizing.toDecoder params' now output).completion
            with hid | ⟨ref, parent, href, hparent, hid⟩
          · rw [hid]
            exact hne
          · rw [hid]
            exact hforeign _ state ref parent hstate (hsame.parentRequest ▸ href) hparent

theorem Solo.foreign_processOutput (detokenizing : Detokenizing σ)
    (h : Solo requestId params promptTokenIds child processor outputs) (now : ℚ)
    (stats : IterationStats) (output : EngineCoreOutput) :
    let after := (processor.processOutput detokenizing now stats output).2.1
    ∀ id state ref parent, after.requestStates.find id = some state →
      state.parentRequest = some ref → after.parents[ref]? = some parent →
      parent.requestId ≠ requestId := by
  intro after id state ref parent hstate href hparent
  obtain ⟨before, hbefore, hsame⟩ := OutputProcessor.processOutput_same hstate
  obtain ⟨parent', hparent', hid⟩ := (SameParents.of_kept
    OutputProcessor.processOutput_parents.1 OutputProcessor.processOutput_parents.2 :
      SameParents processor after) ref parent hparent
  rw [hid]
  exact h.foreign id before ref parent' hbefore (hsame.parentRequest ▸ href) hparent'

/-- The report of the request's own output. -/
theorem Solo.reports_own (h : Solo requestId params promptTokenIds child processor outputs)
    (now : ℚ) (stats : IterationStats) {output : EngineCoreOutput}
    (hid : output.requestId = requestId) {state : RequestState σ}
    (hstate : child.state = some state) :
    let turn := state.prefilled.turn detokenizing.toDecoder params now output
    reports requestId (processor.processOutput detokenizing now stats output).1 =
      [⟨requestId, turn.state.prompt, turn.state.promptTokenIds, [turn.completion],
        turn.completion.finishReason.isSome, turn.state.numCachedTokens⟩] := by
  intro turn
  obtain ⟨-, hkind, -, href, -⟩ := h.running state hstate
  have hfind : processor.requestStates.find output.requestId = some state := by
    rw [hid, h.live, hstate]
  have hsame := (state.prefilled.turn_same detokenizing.toDecoder params now output).trans
    state.prefilled_same
  rw [OutputProcessor.processOutput_generate hfind hkind,
    OutputProcessor.gather_none (hsame.parentRequest.trans href), hid]
  simp [reports, turn]

/-- The request's own output is sent on. -/
theorem Solo.process_own (h : Solo requestId params promptTokenIds child processor outputs)
    (now : ℚ) (stats : IterationStats) {output : EngineCoreOutput}
    (hid : output.requestId = requestId) {state : RequestState σ}
    (hstate : child.state = some state) :
    let result := processor.processOutput detokenizing now stats output
    Solo requestId params promptTokenIds (child.output detokenizing.toDecoder now output)
      result.2.1 (outputs ++ reports requestId result.1) := by
  intro result
  obtain ⟨hrunning, hkind, hprompt, href, hindex⟩ := h.running state hstate
  have hforeign := h.foreign_processOutput detokenizing now stats output
  have hfind : processor.requestStates.find output.requestId = some state := by
    rw [hid, h.live, hstate]
  have hresult : result = _ := OutputProcessor.processOutput_generate hfind hkind
  have hchild := Child.output_of_some detokenizing.toDecoder now output hstate hkind
  have hsame := (state.prefilled.turn_same detokenizing.toDecoder params now output).trans
    state.prefilled_same
  have hturnIndex := (state.prefilled.turn_index detokenizing.toDecoder params now output).trans
    hindex
  have hreason := state.prefilled.turn_finishReason detokenizing.toDecoder params now output
  have hreports : reports requestId result.1 = _ := h.reports_own now stats hid hstate
  rw [hchild]
  generalize state.prefilled.turn detokenizing.toDecoder params now output = turn at *
  rw [OutputProcessor.gather_none (hsame.parentRequest.trans href), hid] at hresult
  -- nothing that was sent so far has ended the request
  have hbefore : ∀ completion ∈ child.chunks, completion.finishReason = none := by
    rcases List.eq_nil_or_concat child.chunks with hnil | ⟨before, last, hchunks⟩
    · rw [hnil]
      exact fun completion hmem => absurd hmem List.not_mem_nil
    · have hgoing := h.going
      unfold Child.finished at hrunning
      rw [hchunks, List.concat_eq_append] at hgoing hrunning ⊢
      rw [List.dropLast_concat] at hgoing
      rw [List.getLast?_concat] at hrunning
      refine List.forall_mem_append.mpr ⟨hgoing, List.forall_mem_singleton.mpr ?_⟩
      simpa using hrunning
  refine ⟨?_, fun later hlater => ?_, fun hgone => ?_, hforeign, ?_, ?_, ?_, ?_, ?_⟩
  · rw [hresult]
    dsimp only
    split
    · rw [OutputProcessor.retire_requestStates, Dict.find_delete, if_pos rfl]
    · exact Dict.find_store_self ..
  · dsimp only at hlater
    split at hlater
    · cases hlater
    · rename_i hgoes
      obtain rfl := Option.some.inj hlater
      refine ⟨?_, hsame.kind.trans hkind, hsame.promptTokenIds.trans hprompt,
        hsame.parentRequest.trans href, hsame.index.trans hindex⟩
      rw [Child.finished_concat, hreason]
      exact Bool.not_eq_true _ ▸ hgoes
  · dsimp only at hgone
    split at hgone
    · rename_i hends
      rw [Child.finished_concat, hreason]
      exact hends
    · cases hgone
  · rw [hreports, List.map_append, List.map_append, h.sent]
    rfl
  · rw [hreports, List.map_append, List.map_append, h.flags]
    rfl
  · rw [hreports]
    exact List.forall_mem_append.mpr ⟨h.prompts,
      List.forall_mem_singleton.mpr (hsame.promptTokenIds.trans hprompt)⟩
  · exact List.forall_mem_append.mpr ⟨h.indices, List.forall_mem_singleton.mpr hturnIndex⟩
  · rw [List.dropLast_concat]
    exact hbefore

/-- An output that is not the request's, or comes after its end, leaves it alone. -/
theorem Solo.process_other (h : Solo requestId params promptTokenIds child processor outputs)
    (now : ℚ) (stats : IterationStats) {output : EngineCoreOutput}
    (hother : output.requestId = requestId → child.state = none) :
    let result := processor.processOutput detokenizing now stats output
    Solo requestId params promptTokenIds child result.2.1
      (outputs ++ reports requestId result.1) := by
  intro result
  by_cases hid : output.requestId = requestId
  · have hresult : result = _ :=
      OutputProcessor.processOutput_unknown (by rw [hid, h.live, hother hid])
    rw [hresult]
    exact (List.append_nil outputs).symm ▸ h
  · have hquiet : reports requestId result.1 = [] :=
      reports_processOutput hid h.foreign now stats
    rw [hquiet, List.append_nil]
    exact ⟨(OutputProcessor.find_processOutput hid).trans h.live, h.running, h.gone,
      h.foreign_processOutput detokenizing now stats output, h.sent, h.flags, h.prompts,
      h.indices, h.going⟩

/-- Any output is the request's own, or leaves it alone. -/
theorem Solo.call (detokenizing : Detokenizing σ) {session : Session σ}
    (h : Solo requestId params promptTokenIds child session.processor
      (reports requestId session.emitted)) (o : ℚ × EngineCoreOutput) :
    let next := session.call detokenizing (.processOutput o.1 o.2)
    Solo requestId params promptTokenIds
      (if o.2.requestId = requestId then child.output detokenizing.toDecoder o.1 o.2 else child)
      next.processor (reports requestId next.emitted) := by
  rw [Session.call_processOutput]
  dsimp only
  rw [reports_append]
  by_cases hid : o.2.requestId = requestId
  · rw [if_pos hid]
    cases hstate : child.state with
    | some state => exact h.process_own o.1 session.stats hid hstate
    | none =>
        rw [Child.output_of_none _ _ _ hstate]
        exact h.process_other o.1 session.stats fun _ => hstate
  · rw [if_neg hid]
    exact h.process_other o.1 session.stats fun heq => absurd heq hid

theorem Solo.run (detokenizing : Detokenizing σ) {session : Session σ}
    (h : Solo requestId params promptTokenIds child session.processor
      (reports requestId session.emitted)) (timed : List (ℚ × EngineCoreOutput)) :
    let ended := session.run detokenizing (timed.map fun o => .processOutput o.1 o.2)
    Solo requestId params promptTokenIds (child.follow detokenizing.toDecoder requestId timed)
      ended.processor (reports requestId ended.emitted) := by
  induction timed generalizing session child with
  | nil => exact h
  | cons o rest ih =>
      rw [Child.follow_cons]
      exact @ih _ (session.call detokenizing (.processOutput o.1 o.2)) (h.call detokenizing o)

/-- What is sent on is what is served. -/
theorem Solo.served (hn : params.n = 1)
    (h : Solo requestId params promptTokenIds child processor outputs) :
    Served params promptTokenIds (fun _ => child) outputs where
  prompts := h.prompts
  delta _ := by
    have hflat : outputs.flatMap (·.outputs) = child.chunks := by
      rw [List.flatMap_def, h.sent, ← List.flatMap_def]
      exact List.flatMap_singleton' child.chunks
    refine ⟨fun output houtput completion hcompletion => ?_, fun i hi => ?_⟩
    · have hmem : completion ∈ child.chunks :=
        hflat ▸ List.mem_flatMap.mpr ⟨output, houtput, hcompletion⟩
      rw [h.indices completion hmem, hn]
      exact Nat.one_pos
    · rw [hflat, List.filter_eq_self]
      intro completion hmem
      rw [h.indices completion hmem]
      exact decide_eq_true (by omega)
  last := by
    have hflags := h.flags
    have hsent := h.sent
    have hgoing := h.going
    split
    · -- the last completion is the only one that ends the request
      rename_i hall
      have hfinished := hall 0 (by omega)
      unfold Child.finished at hfinished
      rcases List.eq_nil_or_concat child.chunks with hnil | ⟨chunks, last, hchunks⟩
      · rw [hnil] at hfinished
        cases hfinished
      rw [List.concat_eq_append] at hchunks
      rw [hchunks, List.map_append] at hflags hsent
      rw [hchunks, List.dropLast_concat] at hgoing
      rw [hchunks, List.getLast?_concat] at hfinished
      obtain ⟨before, ends, rfl, hbefore, hlast⟩ := List.map_eq_append_iff.mp hflags
      obtain ⟨output, rfl, hflag⟩ := List.map_eq_singleton_iff.mp hlast
      refine ⟨before, output, rfl, hflag.trans hfinished, fun earlier hearlier => ?_, fun _ => ?_⟩
      · have hmem : earlier.finished ∈ before.map (·.finished) := List.mem_map_of_mem hearlier
        rw [hbefore] at hmem
        obtain ⟨completion, hcompletion, heq⟩ := List.mem_map.mp hmem
        rw [← heq, hgoing completion hcompletion]
        rfl
      · rw [List.map_append] at hsent
        have hone : output.outputs = [last] :=
          (List.cons.inj (List.append_inj' hsent rfl).2).1
        rw [hn, hone, hchunks]
        simp
    · -- no completion ends it
      rename_i hsome
      intro output houtput
      have hrunning : child.finished = false :=
        Bool.eq_false_iff.mpr fun hfinished => hsome fun i hi => hfinished
      have hmem : output.finished ∈ outputs.map (·.finished) := List.mem_map_of_mem houtput
      rw [hflags] at hmem
      obtain ⟨completion, hcompletion, heq⟩ := List.mem_map.mp hmem
      rcases List.eq_nil_or_concat child.chunks with hnil | ⟨chunks, last, hchunks⟩
      · rw [hnil] at hcompletion
        exact absurd hcompletion List.not_mem_nil
      rw [List.concat_eq_append] at hchunks
      unfold Child.finished at hrunning
      rw [hchunks, List.dropLast_concat] at hgoing
      rw [hchunks, List.getLast?_concat] at hrunning
      rw [hchunks] at hcompletion
      rw [← heq]
      rcases List.mem_append.mp hcompletion with hearlier | hends
      · rw [hgoing completion hearlier]
        rfl
      · rw [List.mem_singleton.mp hends]
        exact hrunning

end Solo

/-! ### A call of `generate` -/

structure Starts (params : SamplingParams) (promptTokenIds : List TokenId) (decoderState : σ)
    (i : ℕ) (state : RequestState σ) : Prop where
  kind : ∃ own, state.kind = .generate own ∧ own.outputKind = params.outputKind ∧
    own.stop = params.stop
  detokenizer : state.detokenizer = .init promptTokenIds decoderState
  index : state.index = i

/-- What is served depends on the children there are. -/
theorem Served.congr {params : SamplingParams} {promptTokenIds : List TokenId}
    {children children' : ℕ → Child σ} {outputs : List RequestOutput}
    (h : Served params promptTokenIds children outputs)
    (heq : ∀ i < params.n, children' i = children i) :
    Served params promptTokenIds children' outputs where
  prompts := h.prompts
  delta hdelta := ⟨(h.delta hdelta).1, fun i hi => heq i hi ▸ (h.delta hdelta).2 i hi⟩
  last := by
    have hfinals : (List.range params.n).map (fun i => (children' i).chunks.getLast?) =
        (List.range params.n).map fun i => (children i).chunks.getLast? :=
      List.map_congr_left fun i hi => by rw [heq i (List.mem_range.mp hi)]
    have hall : (∀ i < params.n, (children' i).finished = true) ↔
        ∀ i < params.n, (children i).finished = true :=
      forall₂_congr fun i hi => by rw [heq i hi]
    simp only [hfinals, hall]
    exact h.last

section Register

variable {detokenizing : Detokenizing σ} {requestId : Text} {params : SamplingParams}
  {promptTokenIds : List TokenId} {decoderState : σ} {session : Session σ}

/-- A request for one completion as it is registered. -/
theorem solo_register (prompt : Option Text) (arrivalTime : ℕ → ℚ) (hn : params.n = 1)
    (hquiet : session.emitted = [])
    (hunused : Unused session.processor requestId params.n)
    (hprompt : detokenizing.convertPrompt promptTokenIds = .ok decoderState) :
    let args : OutputProcessor.AddArgs :=
      ⟨requestId, prompt, promptTokenIds, .generate params, arrivalTime 0, none, 0⟩
    let added := session.register detokenizing requestId params prompt promptTokenIds arrivalTime
    Solo requestId params promptTokenIds ⟨[], some (args.state decoderState)⟩ added.processor
      (reports requestId added.emitted) := by
  intro args added
  have hone : ¬1 < params.n := by omega
  have hadded : added.emitted = [] ∧ added.processor.parents = session.processor.parents ∧
      added.processor.requestStates =
        session.processor.requestStates.store requestId (args.state decoderState) := by
    show (session.register ..).emitted = [] ∧ _ ∧ _
    unfold added Session.register
    rw [if_neg hone]
    refine ⟨hquiet, ?_⟩
    show (OutputProcessor.tryAdd ..).parents = _ ∧ (OutputProcessor.tryAdd ..).requestStates = _
    unfold OutputProcessor.tryAdd OutputProcessor.addRequest
    dsimp only
    rw [hunused.own, hprompt]
    exact ⟨rfl, rfl⟩
  obtain ⟨hemitted, hparents, hstates⟩ := hadded
  have hempty : reports requestId added.emitted = [] := by rw [hemitted]; rfl
  refine ⟨?_, fun state hstate => ?_, fun hgone => ?_,
    fun id state ref parent hstate href hparent => ?_, ?_, ?_, ?_, ?_, ?_⟩
  · rw [hstates]
    exact Dict.find_store_self ..
  · obtain rfl := Option.some.inj hstate
    exact ⟨rfl, rfl, rfl, rfl, rfl⟩
  · cases hgone
  · rw [hparents] at hparent
    rw [hstates, Dict.find_store] at hstate
    split at hstate
    · obtain rfl := Option.some.inj hstate
      cases href
    · exact hunused.reports id state ref parent hstate href hparent
  · rw [hempty]
    rfl
  · rw [hempty]
    rfl
  · rw [hempty]
    exact fun output houtput => absurd houtput List.not_mem_nil
  · exact fun completion hmem => absurd hmem List.not_mem_nil
  · exact fun completion hmem => absurd hmem List.not_mem_nil

theorem fanned_register (prompt : Option Text) (arrivalTime : ℕ → ℚ) (hn : 1 < params.n)
    (hsound : session.processor.Sound) (hquiet : session.emitted = [])
    (hunused : Unused session.processor requestId params.n)
    (hprompt : detokenizing.convertPrompt promptTokenIds = .ok decoderState) :
    let ref := session.processor.parents.length
    let fan := Fan.start params.n fun i =>
      (childArgs requestId params prompt promptTokenIds arrivalTime ref i).state decoderState
    let added := session.register detokenizing requestId params prompt promptTokenIds arrivalTime
    added.processor.Sound ∧ Fanned requestId params prompt promptTokenIds ref fan added.processor ∧
      Gathered params prompt promptTokenIds fan (reports requestId added.emitted) := by
  intro ref fan added
  have hfresh : Fresh session.processor requestId params.n := by
    refine ⟨hunused.own, fun i hi => ?_, hunused.parent, hunused.reports⟩
    have hchild := hunused.children i hi
    unfold engineId at hchild
    rwa [if_pos hn] at hchild
  have hadded : added = session.run detokenizing (.newParent requestId params ::
      fanOut ref params.n prompt promptTokenIds arrivalTime) := if_pos hn
  have hcreated : Fanning requestId params ref (fun i =>
      (childArgs requestId params prompt promptTokenIds arrivalTime ref i).state decoderState) 0
      (session.call detokenizing (.newParent requestId params)).processor :=
    Fanning.init hsound hfresh _
  obtain ⟨hfanning, hemitted⟩ := fanning_run hprompt hcreated le_rfl
  obtain ⟨hfanned, hgathered⟩ := hfanning.fanned (by omega) fun i => ⟨rfl, rfl, rfl, rfl, rfl⟩
  have hempty : reports requestId added.emitted = [] := by
    rw [hadded]
    exact congrArg (reports requestId) (hemitted.trans hquiet)
  rw [hempty, hadded]
  exact ⟨Session.sound_run hsound _, hfanned, hgathered⟩

theorem apart_processOutputs (session : Session σ) (n : ℕ)
    (outputs : List (ℚ × EngineCoreOutput)) :
    session.Apart detokenizing requestId n (outputs.map fun o => .processOutput o.1 o.2) := by
  induction outputs generalizing session with
  | nil => trivial
  | cons o rest ih => exact ⟨trivial, ih _⟩

/-- A call of `generate` is served what the children make of their outputs, each on its own. -/
theorem served_register (params : SamplingParams) (prompt : Option Text) (arrivalTime : ℕ → ℚ)
    (hn : 1 ≤ params.n)
    (hsound : session.processor.Sound)
    (hquiet : session.emitted = []) (hunused : Unused session.processor requestId params.n)
    (hprompt : detokenizing.convertPrompt promptTokenIds = .ok decoderState)
    (steps : List EngineStep) :
    ∃ states : ℕ → RequestState σ,
      (∀ i < params.n, Starts params promptTokenIds decoderState i (states i)) ∧
      Served params promptTokenIds
        (fun i => Child.follow detokenizing.toDecoder (engineId requestId params.n i)
          ⟨[], some (states i)⟩ (timed steps))
        (reports requestId ((session.register detokenizing requestId params prompt promptTokenIds
          arrivalTime).processSteps detokenizing steps).emitted) := by
  rw [Session.processSteps_eq]
  rcases Nat.lt_or_eq_of_le hn with hmany | hone
  · obtain ⟨hsound', hfanned, hgathered⟩ :=
      fanned_register prompt arrivalTime hmany hsound hquiet hunused hprompt
    obtain ⟨-, hserved⟩ := fanned_run hsound' hfanned hgathered
      (apart_processOutputs _ params.n (timed steps))
    refine ⟨fun i => (childArgs requestId params prompt promptTokenIds arrivalTime
      session.processor.parents.length i).state decoderState, fun i hi => ?_,
      hserved.served.congr fun i hi => ?_⟩
    · exact ⟨⟨_, rfl, rfl, rfl⟩, rfl, rfl⟩
    · rw [Fan.run_children]
      unfold engineId Fan.start
      rw [if_pos hmany]
      dsimp only
      rw [if_pos hi]
  · have hsolo := Solo.run detokenizing
      (solo_register prompt arrivalTime hone.symm hquiet hunused hprompt) (timed steps)
    refine ⟨fun _ => OutputProcessor.AddArgs.state ⟨requestId, prompt, promptTokenIds,
      .generate params, arrivalTime 0, none, 0⟩ decoderState, fun i hi => ?_,
      (hsolo.served hone.symm).congr fun i hi => ?_⟩
    · exact ⟨⟨_, rfl, rfl, rfl⟩, rfl, show 0 = i by omega⟩
    · unfold engineId
      rw [if_neg (by omega)]

end Register

end Pvllm.Frontend
