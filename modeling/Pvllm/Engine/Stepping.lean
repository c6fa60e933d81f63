import Pvllm.Engine.Core
import Pvllm.Core.Sched.Finishes

/-!
The calls on an engine core: adding and aborting requests, and stepping.

Admitting a constrained request first builds the grammar backend, which the
configuration may name in vain. A step ends the requests whose grammar failed to
compile together with those the model ended, and tells of both in the same outputs.
-/

namespace Pvllm

variable {H : Type} [DecidableEq H]

/-! ### Grammars -/

def upstreamBackends : List String := ["xgrammar", "guidance", "outlines", "lm-format-enforcer"]

/-- Who compiles grammars: the configured backend, and whether it is built. -/
structure StructuredOutputManager where
  backend : String
  built : Bool

namespace StructuredOutputManager

def buildBackend (backend : String) : Except PyError Unit :=
  raiseFirst [
    (upstreamBackends.contains backend, .notImplementedError
      (s!"structured output backend '{backend}' is a compiled grammar engine "
        ++ "over a real vocabulary and is not available here. pretending-vllm "
        ++ "provides the 'sim' backend, which generates output conforming to "
        ++ "the constraint (see pvllm/sim/structured_output.py for "
        ++ "what that does and does not tell you). Pass "
        ++ "--structured-outputs-backend auto or sim.")),
    (backend ≠ "auto" && backend ≠ "sim", .valueError
      (s!"unknown structured output backend '{backend}'; expected 'auto' or "
        ++ "'sim' (upstream's backends are ['xgrammar', 'guidance', 'outlines', "
        ++ "'lm-format-enforcer'])"))]

/-- Start compiling a request's grammar, with the backend built at the first. -/
def grammarInit (manager : StructuredOutputManager) (request : Request H) :
    Except PyError StructuredOutputManager :=
  if request.structuredOutputRequest = none ∨ manager.built then .ok manager
  else
    match buildBackend manager.backend with
    | .error e => .error e
    | .ok () => .ok { manager with built := true }

end StructuredOutputManager

/-! ### The engine core of a client -/

structure ServingCore (H : Type) extends EngineCore H where
  structuredOutputManager : StructuredOutputManager

namespace ServingCore

variable (core : ServingCore H)

/-- Admit a request. Its grammar starts to compile before it joins the queue. -/
def addRequest (args : RequestArgs) : Except PyError (ServingCore H) :=
  match Request.init args with
  | .error e => .error e
  | .ok request =>
    match core.structuredOutputManager.grammarInit request with
    | .error e => .error e
    | .ok manager => .ok { core with
        scheduler := core.scheduler.addRequest request
        structuredOutputManager := manager }

def abortRequests (requestIds : List RequestId) : Except PyError (ServingCore H) :=
  let held := requestIds.filter (· ∈ core.scheduler.requests)
  match core.scheduler.finishRequests held .finishedAborted with
  | .error e => .error e
  | .ok s => .ok { core with scheduler := s }

/-- What a client is told of a request whose grammar failed; the message aside. -/
def grammarFailure (s : Scheduler H) (r : RequestId) : ℕ × EngineCoreOutput :=
  (if r ∈ s.requests then (s.request r).clientIndex else 0, {
    requestId := r
    newTokenIds := []
    finishReason := some .error
    stopReason := none
    numCachedTokens := 0
    poolingOutput := none })

/-- End the requests whose grammar could not compile, with an output for each. -/
def finishGrammarFailures (s : Scheduler H) (outputs : Dict ℕ (List EngineCoreOutput)) :
    Except PyError (Dict ℕ (List EngineCoreOutput) × Scheduler H) :=
  let failed := s.grammarCompileErrorReqs.mergeSort
  let s := { s with grammarCompileErrorReqs := [] }
  let merged := (failed.map (grammarFailure s)).foldl (fun outputs failure =>
    outputs.store failure.1 (outputs.findD failure.1 [] ++ [failure.2])) outputs
  match s.finishRequests failed .finishedError with
  | .error e => .error e
  | .ok s => .ok (merged, s)

def planStep : Except PyError (SchedulerOutput × ServingCore H) :=
  match core.toEngineCore.planStep with
  | .error e => .error e
  | .ok (output, engine) => .ok (output, { core with toEngineCore := engine })

/-- The second half: the results are folded back, and grammar failures dealt with. -/
def finishStep (output : SchedulerOutput) (batch : Option InputBatch)
    (draws : RequestId → List Bool) :
    Except PyError (Dict ℕ (List EngineCoreOutput) × ServingCore H) :=
  match core.toEngineCore.finishStep output batch draws with
  | .error e => .error e
  | .ok (_, outputs, engine) =>
    match finishGrammarFailures engine.scheduler outputs with
    | .error e => .error e
    | .ok (outputs, s) =>
      .ok (outputs, { core with toEngineCore := { engine with scheduler := s } })

def step (draws : RequestId → List Bool) :
    Except PyError (Dict ℕ (List EngineCoreOutput) × ServingCore H) :=
  if core.scheduler.hasRequests then
    match core.planStep with
    | .error e => .error e
    | .ok (output, core) => core.finishStep output (core.planned.bind (·.2)) draws
  else .ok (.empty, core)

omit [DecidableEq H] in
def getNumUnfinishedRequests : ℕ :=
  core.scheduler.waiting.items.length + core.scheduler.running.length +
    core.scheduler.skippedWaiting.items.length

omit [DecidableEq H] in
def compileGrammar (r : RequestId) (result : Grammar) : ServingCore H :=
  if (core.scheduler.request r).structuredOutputRequest = some .compiling then
    { core with scheduler := core.scheduler.modifyRequest r fun request =>
        { request with structuredOutputRequest := some result } }
  else core

/-- A core as it starts. -/
def Started (core : ServingCore H) : Prop :=
  ∃ config kvCacheConfig enableCaching hashFn seed connector simModel numSpecTokens debugInvariants,
    EngineCore.init config kvCacheConfig enableCaching hashFn seed connector simModel numSpecTokens
      debugInvariants = .ok core.toEngineCore

/-! ### What each call does to the requests -/

variable {core} {core' : ServingCore H}

omit [DecidableEq H] in
theorem addRequest_ok {args : RequestArgs} (h : core.addRequest args = .ok core') :
    ∃ request, Request.init args = .ok request ∧
      core'.scheduler = core.scheduler.addRequest request := by
  unfold addRequest at h
  split at h
  · cases h
  rename_i request hrequest
  split at h
  · cases h
  obtain rfl := Except.ok.inj h
  exact ⟨request, hrequest, rfl⟩

omit [DecidableEq H] in
/-- A request is added under its id. -/
theorem addRequest_requests {args : RequestArgs} (h : core.addRequest args = .ok core')
    (r : RequestId) :
    r ∈ core'.scheduler.requests ↔ r ∈ core.scheduler.requests ∨ r = args.requestId := by
  obtain ⟨request, hrequest, hscheduler⟩ := addRequest_ok h
  rw [hscheduler, Scheduler.addRequest_eq, ← (Request.init_ok hrequest).1]
  exact EncoderCacheManager.mem_insertNew

theorem addRequest_settled {args : RequestArgs} (hsettled : core.scheduler.Settled)
    (hfresh : args.requestId ∉ core.scheduler.requests) (h : core.addRequest args = .ok core') :
    core'.scheduler.Settled := by
  obtain ⟨request, hrequest, hscheduler⟩ := addRequest_ok h
  rw [hscheduler]
  exact hsettled.addRequest hrequest hfresh

theorem abortRequests_ok {requestIds : List RequestId}
    (h : core.abortRequests requestIds = .ok core') :
    core.scheduler.finishRequests (requestIds.filter (· ∈ core.scheduler.requests))
      .finishedAborted = .ok core'.scheduler := by
  unfold abortRequests at h
  dsimp only at h
  split at h
  · cases h
  rename_i s hok
  obtain rfl := Except.ok.inj h
  exact hok

/-- The requests aborted are gone, and no other. -/
theorem abortRequests_requests (hsettled : core.scheduler.Settled) {requestIds : List RequestId}
    (h : core.abortRequests requestIds = .ok core') (r : RequestId) :
    r ∈ core'.scheduler.requests ↔ r ∈ core.scheduler.requests ∧ r ∉ requestIds := by
  rw [Scheduler.finishRequests_requests hsettled (abortRequests_ok h), List.mem_filter]
  simp only [decide_eq_true_eq]
  tauto

theorem abortRequests_settled (hsettled : core.scheduler.Settled) {requestIds : List RequestId}
    (h : core.abortRequests requestIds = .ok core') : core'.scheduler.Settled :=
  hsettled.finishRequests (abortRequests_ok h)

theorem planStep_ok {output : SchedulerOutput} (h : core.planStep = .ok (output, core')) :
    core.toEngineCore.planStep = .ok (output, core'.toEngineCore) ∧
      core'.structuredOutputManager = core.structuredOutputManager := by
  unfold planStep at h
  split at h
  · cases h
  rename_i hok
  cases h
  exact ⟨hok, rfl⟩

theorem planStep_requests {output : SchedulerOutput} (h : core.planStep = .ok (output, core')) :
    core'.scheduler.requests = core.scheduler.requests := by
  obtain ⟨l, hloops, -, hfinishes⟩ :=
    Scheduler.schedule_ok (EngineCore.planStep_ok (planStep_ok h).1).1
  rw [hfinishes.state, StepState.restoreSkippedWaiting_frame]
  exact hloops.static.2.1

theorem perm_outputsOf_failures (failures : List (ℕ × EngineCoreOutput))
    (outputs : Dict ℕ (List EngineCoreOutput)) :
    (outputsOf (failures.foldl (fun outputs failure =>
      outputs.store failure.1 (outputs.findD failure.1 [] ++ [failure.2])) outputs)).Perm
      (outputsOf outputs ++ failures.map Prod.snd) := by
  induction failures generalizing outputs with
  | nil => simp
  | cons failure rest ih =>
      have hone := outputs.perm_flatMap_store failure.1 [failure.2]
      have hall := (ih _).trans (hone.append_right (rest.map Prod.snd))
      rwa [List.append_assoc] at hall

omit [DecidableEq H] in
theorem finishedIn_grammarFailure (s : Scheduler H) (failed : List RequestId) :
    finishedIn ((failed.map (grammarFailure s)).map Prod.snd) = failed := by
  induction failed with
  | nil => rfl
  | cons r rest ih => exact congrArg (r :: ·) ih

theorem finishRequests_failures {s s' : Scheduler H} {requestIds : List RequestId}
    {finishedStatus : RequestStatus} (hok : s.finishRequests requestIds finishedStatus = .ok s')
    (hnone : s.grammarCompileErrorReqs = []) : s'.grammarCompileErrorReqs = [] := by
  refine Scheduler.finishAll_invariant (P := fun s : Scheduler H =>
    s.grammarCompileErrorReqs = []) (Scheduler.finishRequests_ok hok).2 hnone
    fun s s' r _ hone h => ?_
  rcases Scheduler.finishOne_ok hone with ⟨-, rfl⟩ | ⟨-, -, -, -, -, -, -, -, -, rfl⟩
  · exact h
  · exact h

theorem finishGrammarFailures_ok {s s' : Scheduler H} (hsettled : s.Settled)
    {outputs outputs' : Dict ℕ (List EngineCoreOutput)}
    (h : finishGrammarFailures s outputs = .ok (outputs', s')) :
    s'.Settled ∧ s'.grammarCompileErrorReqs = [] ∧
      (finishedIn (outputsOf outputs')).Perm
        (finishedIn (outputsOf outputs) ++ s.grammarCompileErrorReqs) ∧
      ∀ r, r ∈ s'.requests ↔ r ∈ s.requests ∧ r ∉ s.grammarCompileErrorReqs := by
  unfold finishGrammarFailures at h
  dsimp only at h
  split at h
  · cases h
  rename_i s₁ hok
  cases h
  have hcleared : Scheduler.Settled { s with grammarCompileErrorReqs := [] } :=
    ⟨hsettled.partition, hsettled.skipped⟩
  have hsorted := List.mergeSort_perm s.grammarCompileErrorReqs (fun a b => decide (a ≤ b))
  refine ⟨hcleared.finishRequests hok, ?_, ?_, fun r => ?_⟩
  · exact finishRequests_failures hok rfl
  · have hperm := ((perm_outputsOf_failures ((s.grammarCompileErrorReqs.mergeSort).map
      (grammarFailure { s with grammarCompileErrorReqs := [] })) outputs).filter
        (·.finishReason.isSome)).map (·.requestId)
    rw [List.filter_append, List.map_append] at hperm
    refine hperm.trans (List.Perm.append_left _ ?_)
    show (finishedIn _).Perm _
    rw [finishedIn_grammarFailure]
    exact hsorted
  · rw [Scheduler.finishRequests_requests hcleared hok, hsorted.mem_iff]

theorem finishStep_ok {output : SchedulerOutput} {batch : Option InputBatch}
    {draws : RequestId → List Bool} {outputs : Dict ℕ (List EngineCoreOutput)}
    (h : core.finishStep output batch draws = .ok (outputs, core')) :
    ∃ modelRunnerOutput outputs' engine,
      core.toEngineCore.finishStep output batch draws = .ok (modelRunnerOutput, outputs', engine) ∧
      finishGrammarFailures engine.scheduler outputs' = .ok (outputs, core'.scheduler) ∧
      core'.structuredOutputManager = core.structuredOutputManager := by
  unfold finishStep at h
  split at h
  · cases h
  rename_i modelRunnerOutput outputs' engine hfinish
  split at h
  · cases h
  rename_i hfailures
  cases h
  exact ⟨_, _, _, hfinish, hfailures, rfl⟩

/-- Between steps: the scheduler is settled, and no grammar failure is left to deal with. -/
structure AtRest (core : ServingCore H) : Prop where
  settled : core.scheduler.Settled
  failures : core.scheduler.grammarCompileErrorReqs = []

theorem AtRest.addRequest (hrest : core.AtRest) {args : RequestArgs}
    (hfresh : args.requestId ∉ core.scheduler.requests) (h : core.addRequest args = .ok core') :
    core'.AtRest := by
  refine ⟨addRequest_settled hrest.settled hfresh h, ?_⟩
  obtain ⟨request, -, hscheduler⟩ := addRequest_ok h
  rw [hscheduler, Scheduler.addRequest_eq]
  exact hrest.failures

theorem AtRest.abortRequests (hrest : core.AtRest) {requestIds : List RequestId}
    (h : core.abortRequests requestIds = .ok core') : core'.AtRest := by
  refine ⟨abortRequests_settled hrest.settled h, ?_⟩
  exact finishRequests_failures (abortRequests_ok h) hrest.failures

/-- A step ends the requests its outputs tell of, each once. -/
theorem AtRest.step (hrest : core.AtRest) {draws : RequestId → List Bool}
    {outputs : Dict ℕ (List EngineCoreOutput)} (h : core.step draws = .ok (outputs, core')) :
    core'.AtRest ∧ Finishes core.scheduler.requests core'.scheduler.requests
      (finishedIn (outputsOf outputs)) := by
  unfold ServingCore.step at h
  split at h
  · split at h
    · cases h
    rename_i output planned hplan
    obtain ⟨modelRunnerOutput, outputs', engine, hfinish, hfailures, -⟩ := finishStep_ok h
    have hschedule := (EngineCore.planStep_ok (planStep_ok hplan).1).1
    have hupdate := (EngineCore.finishStep_ok hfinish).2.1
    have hplanned := hrest.settled.schedule hschedule
    have hwait : core.scheduler.GrammarErrorsWait := by
      refine ⟨hrest.failures ▸ List.nodup_nil, fun r hr => ?_⟩
      rw [hrest.failures] at hr
      cases hr
    have hwaiting := (hwait.schedule hschedule).updateFromOutput hplanned hupdate
    have hupdated := hplanned.updateFromOutput hupdate
    have hfinishes := Scheduler.updateFromOutput_finishes hplanned hupdate
    obtain ⟨hsettled, hnone, hperm, hrequests⟩ := finishGrammarFailures_ok hupdated hfailures
    refine ⟨⟨hsettled, hnone⟩, ?_⟩
    rw [← planStep_requests hplan]
    have hfailed : Finishes engine.scheduler.requests core'.scheduler.requests
        engine.scheduler.grammarCompileErrorReqs :=
      ⟨hwaiting.nodup, hwaiting.known hupdated, hrequests⟩
    exact (hfinishes.trans hfailed).perm hperm.symm
  · cases h
    exact ⟨hrest, .refl _⟩

theorem Started.atRest (h : core.Started) : core.AtRest ∧ core.scheduler.requests = [] := by
  obtain ⟨config, kvCacheConfig, enableCaching, hashFn, seed, connector, simModel, numSpecTokens,
    debugInvariants, hinit⟩ := h
  unfold EngineCore.init at hinit
  split at hinit
  · cases hinit
  rename_i s hs
  obtain ⟨hsettled, hrequests, -⟩ := Scheduler.init_settled hs
  have hscheduler : s = core.scheduler := congrArg EngineCore.scheduler (Except.ok.inj hinit)
  rw [← hscheduler]
  refine ⟨⟨hscheduler ▸ hsettled, hscheduler ▸ ?_⟩, hrequests⟩
  unfold Scheduler.init at hs
  split at hs
  · cases hs
  split at hs
  · cases hs
  obtain rfl := Except.ok.inj hs
  rfl

theorem AtRest.compileGrammar (h : core.AtRest) (r : RequestId) (result : Grammar) :
    (core.compileGrammar r result).AtRest := by
  unfold ServingCore.compileGrammar
  split
  · rename_i hcompiling
    exact ⟨(Scheduler.Step.grammar hcompiling).settled h.settled, h.failures⟩
  · exact h

omit [DecidableEq H] in
theorem compileGrammar_requests (r : RequestId) (result : Grammar) :
    (core.compileGrammar r result).scheduler.requests = core.scheduler.requests := by
  unfold compileGrammar
  split <;> rfl

/-- The requests a core knows are those that wait or run. -/
theorem AtRest.getNumUnfinishedRequests (h : core.AtRest) :
    core.getNumUnfinishedRequests = core.scheduler.requests.length := by
  have hperm := h.settled.partition.perm.length_eq
  rw [hperm, List.length_append, h.settled.queued_eq]
  unfold ServingCore.getNumUnfinishedRequests
  rw [h.settled.skipped, List.length_nil]
  omega

end ServingCore

end Pvllm
