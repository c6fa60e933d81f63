import Pvllm.Engine.OutputProcessor

/-!
The calls a front end makes on the output processor, and runs of them.

A call is as fine as the front ends make them: a parallel request is a parent and then
its children, one at a time, since registering a child may fail between two of them.
What the processor emits, and what it hands out to be stopped in the engine core, is
collected beside it.
-/

namespace Pvllm.Frontend

variable {σ : Type}

/-- A call on the output processor. A child is `index` of the parent at `ref`. -/
inductive Call where
  | addRequest (requestId : Text) (prompt : Option Text) (promptTokenIds : List TokenId)
      (kind : RequestKind) (arrivalTime : ℚ)
  | newParent (requestId : Text) (params : SamplingParams)
  | addChild (ref index : ℕ) (prompt : Option Text) (promptTokenIds : List TokenId)
      (arrivalTime : ℚ)
  | abortRequests (requestIds : List Text)
  | processOutput (now : ℚ) (output : EngineCoreOutput)
  | takeStoppedByString
deriving DecidableEq

/-- A processor, and what came out of it. -/
structure Session (σ : Type) where
  processor : OutputProcessor σ
  stats : IterationStats
  emitted : List ClientOutput
  handed : List Text

def Session.init (σ : Type) : Session σ := ⟨.init σ, .empty, [], []⟩

namespace OutputProcessor

variable (detokenizing : Detokenizing σ) (processor : OutputProcessor σ)

def tryAdd (args : AddArgs) : OutputProcessor σ :=
  match processor.addRequest detokenizing args with
  | .ok processor' => processor'
  | .error _ => processor

/-- One round of the fan-out loop. Its indices are those below `n`. -/
def addChild (ref index : ℕ) (prompt : Option Text) (promptTokenIds : List TokenId)
    (arrivalTime : ℚ) : OutputProcessor σ :=
  match processor.parents[ref]? with
  | none => processor
  | some parent =>
    if index < parent.n then
      let (childId, childParams, parent) := parent.childInfo index
      { processor with parents := processor.parents.set ref parent }.tryAdd detokenizing
        ⟨childId, prompt, promptTokenIds, .generate childParams, arrivalTime, some ref, index⟩
    else processor

end OutputProcessor

namespace Session

variable (detokenizing : Detokenizing σ) (session : Session σ)

def call : Call → Session σ
  | .addRequest requestId prompt promptTokenIds kind arrivalTime =>
    { session with
      processor := session.processor.tryAdd detokenizing
        ⟨requestId, prompt, promptTokenIds, kind, arrivalTime, none, 0⟩ }
  | .newParent requestId params =>
    { session with processor := (session.processor.newParent requestId params).2 }
  | .addChild ref index prompt promptTokenIds arrivalTime =>
    { session with
      processor :=
        session.processor.addChild detokenizing ref index prompt promptTokenIds arrivalTime }
  | .abortRequests requestIds =>
    { session with processor := (session.processor.abortRequests requestIds).2 }
  | .processOutput now output =>
    let (outputs, processor, stats) :=
      session.processor.processOutput detokenizing now session.stats output
    { session with processor, stats, emitted := session.emitted ++ outputs }
  | .takeStoppedByString =>
    let (stopped, processor) := session.processor.takeStoppedByString
    { session with processor, handed := session.handed ++ stopped }

theorem call_processOutput (now : ℚ) (output : EngineCoreOutput) :
    session.call detokenizing (.processOutput now output) =
      let result := session.processor.processOutput detokenizing now session.stats output
      { session with
        processor := result.2.1
        stats := result.2.2
        emitted := session.emitted ++ result.1 } :=
  rfl

def run (calls : List Call) : Session σ := calls.foldl (call detokenizing) session

@[simp] theorem run_nil : session.run detokenizing [] = session := rfl

@[simp] theorem run_cons (c : Call) (calls : List Call) :
    session.run detokenizing (c :: calls) = (session.call detokenizing c).run detokenizing calls :=
  rfl

theorem run_append (calls later : List Call) :
    session.run detokenizing (calls ++ later) =
      (session.run detokenizing calls).run detokenizing later :=
  List.foldl_append ..

/-- The outputs of a step are calls of their own. -/
theorem run_processOutputs (now : ℚ) (outputs : List EngineCoreOutput) :
    session.run detokenizing (outputs.map (.processOutput now)) =
      let (emitted, processor, stats) :=
        OutputProcessor.processOutputs detokenizing now outputs session.processor session.stats
      { session with processor, stats, emitted := session.emitted ++ emitted } := by
  induction outputs generalizing session with
  | nil => simp [OutputProcessor.processOutputs]
  | cons output rest ih =>
      rw [List.map_cons, run_cons, ih]
      simp [call, OutputProcessor.processOutputs, List.append_assoc]

end Session

/-! ### What stays of a request while it is in flight -/

/-- The same request: only its progress differs. -/
structure RequestState.Same (a b : RequestState σ) : Prop where
  requestId : a.requestId = b.requestId
  kind : a.kind = b.kind
  prompt : a.prompt = b.prompt
  promptTokenIds : a.promptTokenIds = b.promptTokenIds
  parentRequest : a.parentRequest = b.parentRequest
  index : a.index = b.index

@[refl] theorem RequestState.Same.rfl' (a : RequestState σ) : a.Same a :=
  ⟨rfl, rfl, rfl, rfl, rfl, rfl⟩

theorem RequestState.Same.trans {a b c : RequestState σ} (h : a.Same b) (h' : b.Same c) :
    a.Same c :=
  ⟨h.requestId.trans h'.requestId, h.kind.trans h'.kind, h.prompt.trans h'.prompt,
    h.promptTokenIds.trans h'.promptTokenIds, h.parentRequest.trans h'.parentRequest,
    h.index.trans h'.index⟩

theorem RequestState.prefilled_same (state : RequestState σ) : state.prefilled.Same state :=
  ⟨rfl, rfl, rfl, rfl, rfl, rfl⟩

/-- Only what is timed differs. -/
structure RequestState.Untimed (a b : RequestState σ) : Prop extends a.Same b where
  detokenizer : a.detokenizer = b.detokenizer
  numCachedTokens : a.numCachedTokens = b.numCachedTokens

theorem RequestState.foldEvent_untimed (state : RequestState σ) (event : EngineCoreEvent) :
    (state.foldEvent event).Untimed state := by
  unfold foldEvent
  split
  · exact ⟨⟨rfl, rfl, rfl, rfl, rfl, rfl⟩, rfl, rfl⟩
  · split <;> exact ⟨⟨rfl, rfl, rfl, rfl, rfl, rfl⟩, rfl, rfl⟩
  · exact ⟨⟨rfl, rfl, rfl, rfl, rfl, rfl⟩, rfl, rfl⟩

theorem RequestState.foldl_foldEvent_untimed (events : List EngineCoreEvent)
    (state : RequestState σ) : (events.foldl foldEvent state).Untimed state := by
  induction events generalizing state with
  | nil => exact ⟨.rfl' state, rfl, rfl⟩
  | cons event events ih =>
      have hone := state.foldEvent_untimed event
      have hrest := ih (state.foldEvent event)
      exact ⟨hrest.toSame.trans hone.toSame, hrest.detokenizer.trans hone.detokenizer,
        hrest.numCachedTokens.trans hone.numCachedTokens⟩

theorem RequestState.recordTokens_untimed (state : RequestState σ) (now : ℚ) (count : ℕ) :
    (state.recordTokens now count).2.Untimed state := by
  unfold recordTokens
  split <;> exact ⟨⟨rfl, rfl, rfl, rfl, rfl, rfl⟩, rfl, rfl⟩

/-- The events of an output and its tokens are only timed. -/
theorem RequestState.timed (state : RequestState σ) (now : ℚ) (output : EngineCoreOutput) :
    ((output.events.foldl foldEvent state).recordTokens now
      output.newTokenIds.length).2.Untimed state := by
  have hevents := foldl_foldEvent_untimed output.events state
  have htokens := (output.events.foldl foldEvent state).recordTokens_untimed now
    output.newTokenIds.length
  exact ⟨htokens.toSame.trans hevents.toSame, htokens.detokenizer.trans hevents.detokenizer,
    htokens.numCachedTokens.trans hevents.numCachedTokens⟩

theorem RequestState.turn_same (state : RequestState σ) (decoder : Decoder σ)
    (params : SamplingParams) (now : ℚ) (output : EngineCoreOutput) :
    (state.turn decoder params now output).state.Same state := by
  have h := RequestState.timed { state with
    detokenizer := (state.detokenizer.update decoder params.stop output.newTokenIds
      (output.finishReason = some .stop)).2
    numCachedTokens := output.numCachedTokens } now output
  exact ⟨h.requestId, h.kind, h.prompt, h.promptTokenIds, h.parentRequest, h.index⟩

theorem RequestState.turn_index (state : RequestState σ) (decoder : Decoder σ)
    (params : SamplingParams) (now : ℚ) (output : EngineCoreOutput) :
    (state.turn decoder params now output).completion.index = state.index :=
  (RequestState.timed { state with
    detokenizer := (state.detokenizer.update decoder params.stop output.newTokenIds
      (output.finishReason = some .stop)).2
    numCachedTokens := output.numCachedTokens } now output).index

theorem RequestState.turn_finishReason (state : RequestState σ) (decoder : Decoder σ)
    (params : SamplingParams) (now : ℚ) (output : EngineCoreOutput) :
    (state.turn decoder params now output).completion.finishReason =
      (state.turn decoder params now output).finishReason :=
  rfl

/-- The same parent, with the children in `live` still outstanding if they were. -/
structure ParentRequest.Keeps (live : Text → Prop) (old new : ParentRequest) : Prop where
  requestId : new.requestId = old.requestId
  samplingParams : new.samplingParams = old.samplingParams
  slots : new.outputAggregator.length = old.outputAggregator.length
  children : ∀ id ∈ old.childRequests, live id → id ∈ new.childRequests
  ids : ∀ id ∈ new.childRequests, id ∈ old.childRequests ∨
    ∃ index, id = ParentRequest.childId old.requestId index

theorem ParentRequest.Keeps.rfl' {live : Text → Prop} (parent : ParentRequest) :
    parent.Keeps live parent :=
  ⟨rfl, rfl, rfl, fun _ h _ => h, fun _ h => Or.inl h⟩

theorem ParentRequest.discard_keeps {live : Text → Prop} (parent : ParentRequest)
    {childRequestId : Text} (h : ¬ live childRequestId) :
    parent.Keeps live (parent.discard childRequestId) := by
  refine ⟨rfl, rfl, rfl, fun id hid hlive => List.mem_filter.mpr ⟨hid, ?_⟩,
    fun id hid => Or.inl (List.mem_of_mem_filter hid)⟩
  exact decide_eq_true fun heq => h (heq ▸ hlive)

theorem ParentRequest.collect_keeps {live : Text → Prop} (parent : ParentRequest)
    (childRequestId : Text) (output : CompletionOutput)
    (h : output.finishReason.isSome = true → ¬ live childRequestId) :
    parent.Keeps live (parent.collect childRequestId output).2.2 := by
  have hdiscard : parent.Keeps live
      (if output.finishReason.isSome then parent.discard childRequestId else parent) := by
    split
    · rename_i hfinished
      exact parent.discard_keeps (h hfinished)
    · exact .rfl' parent
  unfold collect
  dsimp only
  generalize (if output.finishReason.isSome then parent.discard childRequestId else parent) =
    settled at hdiscard
  by_cases hstreaming : settled.streaming = true
  · rw [if_pos hstreaming]
    exact hdiscard
  · rw [if_neg hstreaming]
    exact ⟨hdiscard.requestId, hdiscard.samplingParams,
      (List.length_set ..).trans hdiscard.slots, hdiscard.children, hdiscard.ids⟩

namespace OutputProcessor

/-- The processor is in order: every request is under its id, a child is an outstanding one of
its parent, with a slot there, and parents are registered under their ids. -/
structure Sound (processor : OutputProcessor σ) : Prop where
  requestId : ∀ id state, processor.requestStates.find id = some state → state.requestId = id
  child : ∀ id state ref, processor.requestStates.find id = some state →
    state.parentRequest = some ref → ∃ parent, processor.parents[ref]? = some parent ∧
      id ∈ parent.childRequests ∧ id = ParentRequest.childId parent.requestId state.index ∧
      state.index < parent.n
  slots : ∀ (ref : ℕ) (parent : ParentRequest), processor.parents[ref]? = some parent →
    parent.streaming = false → parent.outputAggregator.length = parent.n
  registered : ∀ id ref, processor.parentRequests.find id = some ref →
    ∃ parent, processor.parents[ref]? = some parent ∧ parent.requestId = id
  ids : ∀ (ref : ℕ) (parent : ParentRequest), processor.parents[ref]? = some parent →
    ∀ id ∈ parent.childRequests, ∃ index, id = ParentRequest.childId parent.requestId index

theorem sound_init : (OutputProcessor.init σ).Sound :=
  ⟨fun _ _ h => (by cases h), fun _ _ _ h => (by cases h), fun _ _ h => (by cases h),
    fun _ _ h => (by cases h), fun _ _ h => (by cases h)⟩

/-- Parents go on, with the outstanding children of the requests that are left. -/
def ParentsKept (old new : OutputProcessor σ) : Prop :=
  ∀ (ref : ℕ) (parent : ParentRequest), old.parents[ref]? = some parent →
    ∃ after, new.parents[ref]? = some after ∧
      parent.Keeps (fun id => id ∈ new.requestStates.keys) after

theorem parentsKept_of_eq {old new : OutputProcessor σ} (h : new.parents = old.parents) :
    ParentsKept old new :=
  fun _ parent hparent => ⟨parent, h ▸ hparent, .rfl' parent⟩

theorem parentsKept_set {old new : OutputProcessor σ} {ref : ℕ} {before after : ParentRequest}
    (hnew : new.parents = old.parents.set ref after) (hbefore : old.parents[ref]? = some before)
    (hkeeps : before.Keeps (fun id => id ∈ new.requestStates.keys) after) :
    ParentsKept old new := by
  intro ref' parent hparent
  rw [hnew, List.getElem?_set]
  by_cases heq : ref = ref'
  · subst heq
    obtain rfl := Option.some.inj (hbefore.symm.trans hparent)
    have hlt : ref < old.parents.length := (List.getElem?_eq_some_iff.mp hbefore).1
    exact ⟨after, by rw [if_pos rfl, if_pos hlt], hkeeps⟩
  · exact ⟨parent, by rw [if_neg heq, hparent], .rfl' parent⟩

/-- Requests may go, and parents may go on, but for the outstanding children. -/
theorem Sound.keep {old new : OutputProcessor σ} (h : old.Sound)
    (hstates : ∀ id state, new.requestStates.find id = some state →
      ∃ state', old.requestStates.find id = some state' ∧ state.Same state')
    (hparents : ParentsKept old new) (hlength : new.parents.length = old.parents.length)
    (hregistry : ∀ id ref, new.parentRequests.find id = some ref →
      old.parentRequests.find id = some ref) : new.Sound := by
  have hbefore (ref : ℕ) (parent : ParentRequest) (hparent : new.parents[ref]? = some parent) :
      ∃ before, old.parents[ref]? = some before ∧
        before.Keeps (fun id => id ∈ new.requestStates.keys) parent := by
    have hlt := (List.getElem?_eq_some_iff.mp hparent).1
    obtain ⟨after, hafter, hkeeps⟩ := hparents ref _ (List.getElem?_eq_getElem (hlength ▸ hlt))
    obtain rfl := Option.some.inj (hafter.symm.trans hparent)
    exact ⟨_, List.getElem?_eq_getElem (hlength ▸ hlt), hkeeps⟩
  refine ⟨fun id state hstate => ?_, fun id state ref hstate href => ?_,
    fun ref parent hparent hstreaming => ?_, fun id ref href => ?_,
    fun ref parent hparent id hid => ?_⟩
  · obtain ⟨state', hstate', hsame⟩ := hstates id state hstate
    exact hsame.requestId.trans (h.requestId id state' hstate')
  · obtain ⟨state', hstate', hsame⟩ := hstates id state hstate
    obtain ⟨parent, hparent, hmem, hid, hlt⟩ := h.child id state' ref hstate'
      (hsame.parentRequest ▸ href)
    obtain ⟨after, hafter, hkeeps⟩ := hparents ref parent hparent
    refine ⟨after, hafter,
      hkeeps.children id hmem ((Dict.mem_keys_iff _ _).mpr ⟨_, hstate⟩), ?_, ?_⟩
    · rw [hkeeps.requestId, hsame.index]
      exact hid
    · unfold ParentRequest.n
      rw [hsame.index, hkeeps.samplingParams]
      exact hlt
  · obtain ⟨before, hbefore, hkeeps⟩ := hbefore ref parent hparent
    unfold ParentRequest.streaming at hstreaming
    unfold ParentRequest.n
    rw [hkeeps.samplingParams] at hstreaming ⊢
    rw [hkeeps.slots]
    exact h.slots ref before hbefore hstreaming
  · obtain ⟨parent, hparent, hid⟩ := h.registered id ref (hregistry id ref href)
    obtain ⟨after, hafter, hkeeps⟩ := hparents ref parent hparent
    exact ⟨after, hafter, hkeeps.requestId.trans hid⟩
  · obtain ⟨before, hbefore, hkeeps⟩ := hbefore ref parent hparent
    rw [hkeeps.requestId]
    rcases hkeeps.ids id hid with hold | hnew
    · exact h.ids ref before hbefore id hold
    · exact hnew

variable {detokenizing : Detokenizing σ} {processor : OutputProcessor σ}

theorem Sound.newParent (h : processor.Sound) (requestId : Text) (params : SamplingParams) :
    (processor.newParent requestId params).2.Sound := by
  have hkept {ref : ℕ} {parent : ParentRequest} (hparent : processor.parents[ref]? = some parent) :
      (processor.newParent requestId params).2.parents[ref]? = some parent :=
    (List.getElem?_append_left (List.getElem?_eq_some_iff.mp hparent).1).trans hparent
  have hfrom {ref : ℕ} {parent : ParentRequest}
      (hparent : (processor.newParent requestId params).2.parents[ref]? = some parent) :
      processor.parents[ref]? = some parent ∨ parent = .init requestId params := by
    have happend : (processor.parents ++ [.init requestId params])[ref]? = some parent := hparent
    rw [List.getElem?_append] at happend
    split at happend
    · exact Or.inl happend
    · rw [List.getElem?_singleton] at happend
      split at happend
      · exact Or.inr (Option.some.inj happend).symm
      · cases happend
  refine ⟨h.requestId, fun id state ref hstate href => ?_, fun ref parent hparent hstreaming => ?_,
    fun id ref href => ?_, fun ref parent hparent id hid => ?_⟩
  · obtain ⟨parent, hparent, hrest⟩ := h.child id state ref hstate href
    exact ⟨parent, hkept hparent, hrest⟩
  · rcases hfrom hparent with hold | rfl
    · exact h.slots ref parent hold hstreaming
    · have hkind : ¬ params.outputKind = .delta := of_decide_eq_false hstreaming
      show (if params.outputKind = .delta then [] else _).length = params.n
      rw [if_neg hkind, List.length_replicate]
  · obtain ⟨parent, hparent, hid⟩ := h.registered id ref href
    exact ⟨parent, hkept hparent, hid⟩
  · rcases hfrom hparent with hold | rfl
    · exact h.ids ref parent hold id hid
    · exact absurd hid List.not_mem_nil

/-- A request is added under a new id; a child is an outstanding one of its parent. -/
theorem Sound.tryAdd (h : processor.Sound) {args : AddArgs}
    (hargs : ∀ ref, args.parentRequest = some ref → ∃ parent,
      processor.parents[ref]? = some parent ∧ args.requestId ∈ parent.childRequests ∧
      args.requestId = ParentRequest.childId parent.requestId args.index ∧
      args.index < parent.n) : (processor.tryAdd detokenizing args).Sound := by
  unfold OutputProcessor.tryAdd
  split
  · rename_i processor' hok
    unfold addRequest at hok
    split at hok
    · cases hok
    split at hok
    · cases hok
    obtain rfl := Except.ok.inj hok
    refine ⟨fun id state hstate => ?_, fun id state ref hstate href => ?_, h.slots,
      fun id ref href => ?_, h.ids⟩
    · rw [Dict.find_store] at hstate
      split at hstate
      · rename_i hid
        obtain rfl := Option.some.inj hstate
        exact hid.symm
      · exact h.requestId id state hstate
    · rw [Dict.find_store] at hstate
      split at hstate
      · rename_i hid
        obtain rfl := Option.some.inj hstate
        rw [hid]
        exact hargs ref href
      · exact h.child id state ref hstate href
    · dsimp only at href
      unfold register at href
      split at href
      · exact h.registered id ref href
      · split at href
        · exact h.registered id ref href
        · rename_i parent hparent
          rw [Dict.find_store] at href
          split at href
          · rename_i hid
            obtain rfl := Option.some.inj href
            exact ⟨parent, hparent, hid.symm⟩
          · exact h.registered id ref href
  · exact h

theorem childInfo_keeps (live : Text → Prop) (parent : ParentRequest) (index : ℕ) :
    parent.Keeps live (parent.childInfo index).2.2 ∧
      (parent.childInfo index).1 ∈ (parent.childInfo index).2.2.childRequests := by
  unfold ParentRequest.childInfo
  dsimp only
  split
  · rename_i hmem
    exact ⟨.rfl' _, hmem⟩
  · refine ⟨⟨rfl, rfl, rfl, fun _ hid _ => List.mem_append_left _ hid, fun id hid => ?_⟩, by simp⟩
    exact (List.mem_append.mp hid).imp_right fun hid => ⟨index, List.mem_singleton.mp hid⟩

theorem Sound.addChild (h : processor.Sound) (ref index : ℕ) (prompt : Option Text)
    (promptTokenIds : List TokenId) (arrivalTime : ℚ) :
    (processor.addChild detokenizing ref index prompt promptTokenIds arrivalTime).Sound := by
  unfold OutputProcessor.addChild
  split
  · exact h
  rename_i parent hparent
  split
  · rename_i hlt
    obtain ⟨hkeeps, hmem⟩ := childInfo_keeps (fun id => id ∈ processor.requestStates.keys)
      parent index
    have hset : ({ processor with
        parents := processor.parents.set ref (parent.childInfo index).2.2 } :
          OutputProcessor σ).Sound :=
      h.keep (fun id state hstate => ⟨state, hstate, .rfl' state⟩)
        (parentsKept_set rfl hparent hkeeps) (List.length_set ..) fun _ _ => id
    refine hset.tryAdd fun ref' href => ?_
    obtain rfl := Option.some.inj href
    have hlength : ref < processor.parents.length := (List.getElem?_eq_some_iff.mp hparent).1
    exact ⟨_, by simp [hlength], hmem,
      congrArg (ParentRequest.childId · index) hkeeps.requestId.symm, hlt⟩
  · exact h

/-! ### Ending requests -/

theorem Sound.delete (h : processor.Sound) (requestId : Text) :
    ({ processor with
      requestStates := processor.requestStates.delete requestId } : OutputProcessor σ).Sound :=
  h.keep (fun _ state hstate => ⟨state, Dict.find_of_find_delete hstate, .rfl' state⟩)
    (parentsKept_of_eq rfl) rfl fun _ _ => id

/-- Only requests and parents matter. -/
theorem Sound.congr (h : processor.Sound) {new : OutputProcessor σ}
    (hstates : new.requestStates = processor.requestStates)
    (hparents : new.parents = processor.parents)
    (hregistry : ∀ id ref, new.parentRequests.find id = some ref →
      processor.parentRequests.find id = some ref) : new.Sound :=
  h.keep (fun _ state hstate => ⟨state, hstates ▸ hstate, .rfl' state⟩)
    (parentsKept_of_eq hparents) (congrArg List.length hparents) hregistry

theorem modify_eq_set_of {α : Type} {l : List α} {i : ℕ} {a : α} (h : l[i]? = some a)
    (f : α → α) : l.modify i f = l.set i (f a) := by
  obtain ⟨hlt, rfl⟩ := List.getElem?_eq_some_iff.mp h
  apply List.ext_getElem?
  intro j
  rw [List.getElem?_modify, List.getElem?_set]
  by_cases heq : i = j
  · subst heq
    simp [hlt]
  · simp [heq]

theorem Sound.abortRequest (h : processor.Sound) (requestId : Text) :
    (processor.abortRequest requestId).2.Sound := by
  unfold OutputProcessor.abortRequest
  split
  · rename_i state hstate
    dsimp only
    split
    · exact h.delete requestId
    · rename_i ref href
      obtain ⟨parent, hparent, -⟩ := h.child requestId state ref hstate href
      have hdiscard : ({ processor with
          requestStates := processor.requestStates.delete requestId
          parents := processor.parents.modify ref (·.discard requestId) } :
            OutputProcessor σ).Sound := by
        have hgone : ¬ requestId ∈ (processor.requestStates.delete requestId).keys :=
          fun hmem => ((Dict.mem_keys_delete _ _ _).mp hmem).1 rfl
        exact h.keep
          (fun _ state hstate => ⟨state, Dict.find_of_find_delete hstate, .rfl' state⟩)
          (parentsKept_set (modify_eq_set_of hparent _) hparent (parent.discard_keeps hgone))
          (List.length_modify ..) fun _ _ => id
      split
      · exact hdiscard
      · split
        · exact hdiscard.congr rfl rfl fun _ _ => Dict.find_of_find_delete
        · exact hdiscard
  · split
    · exact h
    · rename_i ref href
      dsimp only
      split
      · exact h.congr rfl rfl fun _ _ => Dict.find_of_find_delete
      · refine h.keep (fun id state hstate => ?_) (parentsKept_of_eq rfl) rfl
          fun _ _ => Dict.find_of_find_delete
        rw [Dict.find_foldl_delete] at hstate
        split at hstate
        · cases hstate
        · exact ⟨state, hstate, .rfl' state⟩

theorem Sound.abortRequests (h : processor.Sound) (requestIds : List Text) :
    (processor.abortRequests requestIds).2.Sound := by
  induction requestIds generalizing processor with
  | nil => exact h
  | cons requestId rest ih => exact ih (h.abortRequest requestId)

/-! ### Processing outputs -/

section Process

variable {now : ℚ} {stats : IterationStats} {output : EngineCoreOutput}
  {state : RequestState σ}

@[simp] theorem retire_requestStates (requestId : Text) (finishReason : Option FinishReason) :
    (processor.retire stats state requestId now finishReason).1.requestStates =
      processor.requestStates.delete requestId := rfl

@[simp] theorem retire_parents (requestId : Text) (finishReason : Option FinishReason) :
    (processor.retire stats state requestId now finishReason).1.parents = processor.parents := rfl

@[simp] theorem retire_stoppedByString (requestId : Text) (finishReason : Option FinishReason) :
    (processor.retire stats state requestId now finishReason).1.stoppedByString =
      processor.stoppedByString := rfl

theorem retire_registry (processor : OutputProcessor σ) (stats : IterationStats)
    (state : RequestState σ) (requestId : Text) (now : ℚ) (finishReason : Option FinishReason)
    (id : Text) (ref : ℕ)
    (h : (processor.retire stats state requestId now finishReason).1.parentRequests.find id =
      some ref) : processor.parentRequests.find id = some ref := by
  unfold retire at h
  dsimp only at h
  split at h
  · exact h
  · split at h
    · exact Dict.find_of_find_delete h
    · exact h

/-- Retiring a request leaves the entries of other parents. -/
theorem retire_find (processor : OutputProcessor σ) (stats : IterationStats)
    (state : RequestState σ) (requestId : Text) (now : ℚ) (finishReason : Option FinishReason)
    {id : Text} (h : ∀ parent, state.parentRequest.bind (processor.parents[·]?) = some parent →
      parent.requestId ≠ id) :
    (processor.retire stats state requestId now finishReason).1.parentRequests.find id =
      processor.parentRequests.find id := by
  unfold retire
  dsimp only
  split
  · rfl
  · rename_i parent hparent
    split
    · rw [Dict.find_delete, if_neg (h parent hparent).symm]
    · rfl

/-- Retiring the last outstanding child retires its parent. -/
theorem retire_child (processor : OutputProcessor σ) (stats : IterationStats)
    {state : RequestState σ} (requestId : Text) (now : ℚ) (finishReason : Option FinishReason)
    {ref : ℕ} {parent : ParentRequest} (href : state.parentRequest = some ref)
    (hparent : processor.parents[ref]? = some parent) :
    (processor.retire stats state requestId now finishReason).1.parentRequests =
      if parent.childRequests.isEmpty then processor.parentRequests.delete parent.requestId
      else processor.parentRequests := by
  unfold retire
  rw [href, Option.bind_some, hparent]
  rfl

theorem gather_none {requestId : Text} {completion : CompletionOutput}
    (h : state.parentRequest = none) : processor.gather state requestId completion =
      ([completion], requestId, completion.finishReason.isSome, processor) := by
  unfold gather
  rw [h]

theorem gather_some {requestId : Text} {completion : CompletionOutput} {ref : ℕ}
    {parent : ParentRequest} (href : state.parentRequest = some ref)
    (hparent : processor.parents[ref]? = some parent) :
    processor.gather state requestId completion =
      let collected := parent.collect requestId completion
      (collected.1, parent.requestId, collected.2.1,
        { processor with parents := processor.parents.set ref collected.2.2 }) := by
  have hkeeps : parent.Keeps (fun _ => False) (parent.collect requestId completion).2.2 :=
    parent.collect_keeps requestId completion fun _ => not_false
  unfold gather
  rw [href]
  dsimp only
  rw [hparent]
  dsimp only
  rw [hkeeps.requestId]

@[simp] theorem gather_requestStates (processor : OutputProcessor σ) (state : RequestState σ)
    (requestId : Text) (completion : CompletionOutput) :
    (processor.gather state requestId completion).2.2.2.requestStates =
      processor.requestStates := by
  unfold gather
  dsimp only
  split
  · rfl
  · split <;> rfl

@[simp] theorem gather_parentRequests (processor : OutputProcessor σ) (state : RequestState σ)
    (requestId : Text) (completion : CompletionOutput) :
    (processor.gather state requestId completion).2.2.2.parentRequests =
      processor.parentRequests := by
  unfold gather
  dsimp only
  split
  · rfl
  · split <;> rfl

@[simp] theorem gather_stoppedByString (processor : OutputProcessor σ) (state : RequestState σ)
    (requestId : Text) (completion : CompletionOutput) :
    (processor.gather state requestId completion).2.2.2.stoppedByString =
      processor.stoppedByString := by
  unfold gather
  dsimp only
  split
  · rfl
  · split <;> rfl

theorem processOutput_unknown (h : processor.requestStates.find output.requestId = none) :
    processor.processOutput detokenizing now stats output = ([], processor, stats) := by
  unfold processOutput
  rw [h]

theorem gather_parents (processor : OutputProcessor σ) (state : RequestState σ)
    (requestId : Text) (completion : CompletionOutput) (live : Text → Prop)
    (hgone : completion.finishReason.isSome = true → ¬ live requestId) :
    (processor.gather state requestId completion).2.2.2.parents.length =
        processor.parents.length ∧
      ∀ (ref : ℕ) (parent : ParentRequest), processor.parents[ref]? = some parent →
        ∃ after, (processor.gather state requestId completion).2.2.2.parents[ref]? = some after ∧
          parent.Keeps live after := by
  unfold gather
  dsimp only
  split
  · exact ⟨rfl, fun ref parent hparent => ⟨parent, hparent, .rfl' parent⟩⟩
  rename_i ref₀ href
  split
  · exact ⟨rfl, fun ref parent hparent => ⟨parent, hparent, .rfl' parent⟩⟩
  rename_i parent₀ hparent₀
  refine ⟨List.length_set .., fun ref parent hparent => ?_⟩
  dsimp only
  rw [List.getElem?_set]
  by_cases heq : ref₀ = ref
  · subst heq
    obtain rfl := Option.some.inj (hparent₀.symm.trans hparent)
    rw [if_pos rfl, if_pos (List.getElem?_eq_some_iff.mp hparent₀).1]
    exact ⟨_, rfl, parent₀.collect_keeps requestId completion hgone⟩
  · rw [if_neg heq]
    exact ⟨parent, hparent, .rfl' parent⟩

/-- What an output does to a generating request. -/
theorem processOutput_generate {params : SamplingParams}
    (hstate : processor.requestStates.find output.requestId = some state)
    (hkind : state.kind = .generate params) :
    let turn := state.prefilled.turn detokenizing.toDecoder params now output
    let gathered := (processor.recordTurn output.requestId turn).gather turn.state
      output.requestId turn.completion
    let stats' := chargeTurn (chargePrompt stats state output) turn output.newTokenIds.length
    processor.processOutput detokenizing now stats output =
      (if gathered.1.isEmpty && !gathered.2.2.1 then []
        else [.request ⟨gathered.2.1, turn.state.prompt, turn.state.promptTokenIds, gathered.1,
          gathered.2.2.1, turn.state.numCachedTokens⟩],
        if turn.finishReason.isSome then
          gathered.2.2.2.retire stats' turn.state output.requestId now turn.finishReason
        else (gathered.2.2.2, stats')) := by
  unfold processOutput
  rw [hstate]
  dsimp only
  rw [hkind]

theorem find_store_same {requests : Dict Text (RequestState σ)} {requestId : Text}
    {later : RequestState σ} (hstate : requests.find requestId = some state)
    (hsame : later.Same state) {id : Text} {found : RequestState σ}
    (hfound : (requests.store requestId later).find id = some found) :
    ∃ before, requests.find id = some before ∧ found.Same before := by
  rw [Dict.find_store] at hfound
  split at hfound
  · rename_i hid
    obtain rfl := Option.some.inj hfound
    exact ⟨state, hid ▸ hstate, hsame⟩
  · exact ⟨found, hfound, .rfl' found⟩

/-- What an output does to a pooling request. -/
theorem processOutput_pool (hstate : processor.requestStates.find output.requestId = some state)
    (hkind : state.kind = .pool) :
    processor.processOutput detokenizing now stats output =
      let stored := { processor with
        requestStates := processor.requestStates.store output.requestId state.prefilled }
      match output.poolingOutput with
      | none => ([], stored, chargePrompt stats state output)
      | some data => ([.pooling ⟨output.requestId, data, state.promptTokenIds, true⟩],
          stored.retire (chargePrompt stats state output) state.prefilled output.requestId now
            output.finishReason) := by
  unfold processOutput
  rw [hstate]
  dsimp only
  split
  · rfl
  · rename_i params hgenerates
    cases hkind.symm.trans hgenerates

/-- An output registers no request. -/
theorem processOutput_same {id : Text} {found : RequestState σ}
    (h : (processor.processOutput detokenizing now stats output).2.1.requestStates.find id =
      some found) :
    ∃ before, processor.requestStates.find id = some before ∧ found.Same before := by
  cases hstate : processor.requestStates.find output.requestId with
  | none =>
      rw [processOutput_unknown hstate] at h
      exact ⟨found, h, .rfl' found⟩
  | some state =>
      cases hkind : state.kind with
      | pool =>
          rw [processOutput_pool hstate hkind] at h
          dsimp only at h
          split at h
          · exact find_store_same hstate state.prefilled_same h
          · rw [retire_requestStates] at h
            exact find_store_same hstate state.prefilled_same (Dict.find_of_find_delete h)
      | generate params =>
          have hsame := (state.prefilled.turn_same detokenizing.toDecoder params now output).trans
            state.prefilled_same
          rw [processOutput_generate hstate hkind] at h
          dsimp only at h
          split at h
          · rw [retire_requestStates, gather_requestStates] at h
            exact find_store_same hstate hsame (Dict.find_of_find_delete h)
          · rw [gather_requestStates] at h
            exact find_store_same hstate hsame h

theorem processOutput_registry {id : Text} {ref : ℕ}
    (h : (processor.processOutput detokenizing now stats output).2.1.parentRequests.find id =
      some ref) : processor.parentRequests.find id = some ref := by
  cases hstate : processor.requestStates.find output.requestId with
  | none =>
      rw [processOutput_unknown hstate] at h
      exact h
  | some state =>
      cases hkind : state.kind with
      | pool =>
          rw [processOutput_pool hstate hkind] at h
          dsimp only at h
          split at h
          · exact h
          · have hstored := retire_registry _ _ _ _ _ _ _ _ h
            exact hstored
      | generate params =>
          rw [processOutput_generate hstate hkind] at h
          dsimp only at h
          split at h
          · have hgathered := retire_registry _ _ _ _ _ _ _ _ h
            rw [gather_parentRequests] at hgathered
            exact hgathered
          · rw [gather_parentRequests] at h
            exact h

/-- An output keeps the parents, with the outstanding children of the requests that are left. -/
theorem processOutput_parents :
    ParentsKept processor (processor.processOutput detokenizing now stats output).2.1 ∧
      (processor.processOutput detokenizing now stats output).2.1.parents.length =
        processor.parents.length := by
  cases hstate : processor.requestStates.find output.requestId with
  | none =>
      rw [processOutput_unknown hstate]
      exact ⟨parentsKept_of_eq rfl, rfl⟩
  | some state =>
      cases hkind : state.kind with
      | pool =>
          rw [processOutput_pool hstate hkind]
          dsimp only
          split <;> exact ⟨parentsKept_of_eq rfl, rfl⟩
      | generate params =>
          rw [processOutput_generate hstate hkind]
          generalize hturn : state.prefilled.turn detokenizing.toDecoder params now output = turn
          have hreason : turn.completion.finishReason = turn.finishReason := hturn ▸ rfl
          dsimp only
          have hgathered := gather_parents (processor.recordTurn output.requestId turn)
            turn.state output.requestId turn.completion
          generalize (processor.recordTurn output.requestId turn).gather turn.state
            output.requestId turn.completion = gathered at hgathered
          cases hfinished : turn.finishReason.isSome with
          | true =>
              -- the request is gone, so its parent need not wait for it
              obtain ⟨hlength, hkeeps⟩ := hgathered
                (fun id => id ∈ (gathered.2.2.2.requestStates.delete output.requestId).keys)
                (fun _ hmem => ((Dict.mem_keys_delete _ _ _).mp hmem).1 rfl)
              exact ⟨hkeeps, hlength⟩
          | false =>
              obtain ⟨hlength, hkeeps⟩ := hgathered
                (fun id => id ∈ gathered.2.2.2.requestStates.keys)
                (fun hsome => absurd (hreason ▸ hsome)
                  (by rw [hfinished]; exact Bool.false_ne_true))
              exact ⟨hkeeps, hlength⟩

theorem Sound.processOutput (h : processor.Sound) :
    (processor.processOutput detokenizing now stats output).2.1.Sound :=
  h.keep (fun _ _ => processOutput_same) processOutput_parents.1 processOutput_parents.2
    fun _ _ => processOutput_registry

end Process

end OutputProcessor

namespace Session

variable {detokenizing : Detokenizing σ} {session : Session σ}

theorem sound_call (h : session.processor.Sound) (c : Call) :
    (session.call detokenizing c).processor.Sound := by
  cases c with
  | addRequest requestId prompt promptTokenIds kind arrivalTime =>
      exact h.tryAdd fun _ href => by cases href
  | newParent requestId params => exact h.newParent requestId params
  | addChild ref index prompt promptTokenIds arrivalTime =>
      exact h.addChild ref index prompt promptTokenIds arrivalTime
  | abortRequests requestIds => exact h.abortRequests requestIds
  | processOutput now output => exact h.processOutput
  | takeStoppedByString => exact h.congr rfl rfl fun _ _ => id

/-- A run keeps the processor in order. -/
theorem sound_run (h : session.processor.Sound) (calls : List Call) :
    (session.run detokenizing calls).processor.Sound := by
  induction calls generalizing session with
  | nil => exact h
  | cons c calls ih => exact ih (sound_call h c)

end Session

end Pvllm.Frontend
