import Pvllm.Core.Sched.Message
import Pvllm.Worker.ModelRunner

/-!
The engine core: the scheduler and the worker in step.

A step is planned and then finished. Planning asks the scheduler for a decision and
hands it to the worker, which brings its memory up to date; nothing comes between
these two. Finishing samples and folds the result back. Between the halves of a step,
and between steps, requests are added and ended.
-/

namespace Pvllm

variable {H : Type} [DecidableEq H]

omit [DecidableEq H] in
def Scheduler.hasRequests (s : Scheduler H) : Bool :=
  s.running ≠ [] || s.waiting.items ≠ [] || s.skippedWaiting.items ≠ [] || s.finishedReqIds ≠ []

/-- The scheduler, the model runner, and the step that is planned and not finished. -/
structure EngineCore (H : Type) where
  scheduler : Scheduler H
  runner : SimModelRunner
  planned : Option (SchedulerOutput × Option InputBatch)

namespace EngineCore

/-- The scheduler and the worker agree on the layout and the caps. -/
def init (config : SchedulerConfig) (kvCacheConfig : KVCacheConfig) (enableCaching : Bool)
    (hashFn : HashInput H → H) (seed : ℕ) (connector : Option (SimSharedStoreConnector H))
    (simModel : SimModel) (numSpecTokens : ℕ) (debugInvariants : Bool) :
    Except PyError (EngineCore H) :=
  match Scheduler.init config kvCacheConfig enableCaching hashFn seed connector with
  | .error e => .error e
  | .ok s => .ok {
      scheduler := s
      runner := .init simModel numSpecTokens config.maxNumRunningReqs config.maxModelLen
        kvCacheConfig enableCaching debugInvariants
      planned := none }

def planStep (core : EngineCore H) : Except PyError (SchedulerOutput × EngineCore H) :=
  match core.scheduler.schedule with
  | .error e => .error e
  | .ok (output, s) =>
    match core.runner.planStep output with
    | .error e => .error e
    | .ok (runner, batch) => .ok (output, ⟨s, runner, some (output, batch)⟩)

def finishStep (core : EngineCore H) (output : SchedulerOutput) (batch : Option InputBatch)
    (draws : RequestId → List Bool) :
    Except PyError (ModelRunnerOutput × Dict ℕ (List EngineCoreOutput) × EngineCore H) :=
  let (modelRunnerOutput, runner) := core.runner.finishStep output draws batch
  match core.scheduler.updateFromOutput output modelRunnerOutput with
  | .error e => .error e
  | .ok (outputs, s) => .ok (modelRunnerOutput, outputs, ⟨s, runner, none⟩)

inductive Step : EngineCore H → Event → EngineCore H → Prop
  | call {s s' : Scheduler H} {runner : SimModelRunner}
      {planned : Option (SchedulerOutput × Option InputBatch)} {event : Event}
      (hstep : Scheduler.Step s event s') (hanytime : event.anytime = true) :
      Step ⟨s, runner, planned⟩ event ⟨s', runner, planned⟩
  | planStep {core core' : EngineCore H} {output : SchedulerOutput} (hidle : core.planned = none)
      (hwork : core.scheduler.hasRequests = true) (hok : core.planStep = .ok (output, core')) :
      Step core (.schedule output) core'
  | finishStep {core core' : EngineCore H} {output : SchedulerOutput} {batch : Option InputBatch}
      {draws : RequestId → List Bool} {modelRunnerOutput : ModelRunnerOutput}
      {outputs : Dict ℕ (List EngineCoreOutput)} (hplanned : core.planned = some (output, batch))
      (hok : core.finishStep output batch draws = .ok (modelRunnerOutput, outputs, core')) :
      Step core (.updateFromOutput output modelRunnerOutput outputs) core'

variable {core core' : EngineCore H}

theorem planStep_ok {output : SchedulerOutput} (h : core.planStep = .ok (output, core')) :
    core.scheduler.schedule = .ok (output, core'.scheduler) ∧ ∃ batch,
      core.runner.planStep output = .ok (core'.runner, batch) ∧
      core'.planned = some (output, batch) := by
  unfold planStep at h
  split at h
  · cases h
  rename_i hschedule
  split at h
  · cases h
  rename_i runner batch hplan
  cases h
  exact ⟨hschedule, batch, hplan, rfl⟩

theorem finishStep_ok {output : SchedulerOutput} {batch : Option InputBatch}
    {draws : RequestId → List Bool} {modelRunnerOutput : ModelRunnerOutput}
    {outputs : Dict ℕ (List EngineCoreOutput)}
    (h : core.finishStep output batch draws = .ok (modelRunnerOutput, outputs, core')) :
    core.runner.finishStep output draws batch = (modelRunnerOutput, core'.runner) ∧
      core.scheduler.updateFromOutput output modelRunnerOutput = .ok (outputs, core'.scheduler) ∧
      core'.planned = none := by
  unfold finishStep at h
  dsimp only at h
  split at h
  · cases h
  · rename_i hok
    cases h
    exact ⟨rfl, hok, rfl⟩

/-- A step of the engine core is a step of its scheduler. -/
theorem Step.scheduler {event : Event} (hstep : Step core event core') :
    Scheduler.Step core.scheduler event core'.scheduler := by
  cases hstep with
  | call hstep _ => exact hstep
  | planStep hidle hwork hok => exact .schedule (planStep_ok hok).1
  | finishStep hplanned hok => exact .updateFromOutput (finishStep_ok hok).2.1

end EngineCore

end Pvllm
