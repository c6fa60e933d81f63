import Pvllm.Core.Sched.Lifecycle

/-!
The exchange between the scheduler and the model runner.

The engine core calls `schedule` and `update_from_output` in turns: an output is
in flight from the one to the other, and its results are folded back before the
next is asked for. Requests come and are ended at any time, in flight or not.
`Answers` is what the runner promises of its results: nothing is sampled for a
request whose prompt is not all in, and else one token and at most one more for
each draft it was sent; a pooling request gets its vector once its prompt is in.
-/

namespace Pvllm

variable {H : Type} [DecidableEq H]

/-! ### What the runner promises -/

namespace UpdateState

def proposedFor (modelRunnerOutput : ModelRunnerOutput) (r : RequestId) : List TokenId :=
  (modelRunnerOutput.specTokenIds.bind (Scheduler.atIndex modelRunnerOutput r)).getD []

end UpdateState

open UpdateState

/-- The results for one request of the batch, which was sent some drafts and has
the tokens of the step counted as computed. -/
structure AnswersFor (modelRunnerOutput : ModelRunnerOutput) (r : RequestId) (request : Request H)
    (numDrafts : ℕ) : Prop where
  prefill : request.numComputedTokens < request.numTokens →
    generatedFor modelRunnerOutput r = [] ∧ proposedFor modelRunnerOutput r = []
  sampled : request.numTokens ≤ request.numComputedTokens → request.usePooling = false →
    generatedFor modelRunnerOutput r ≠ [] ∧
      (generatedFor modelRunnerOutput r).length ≤ numDrafts + 1
  pooling : request.usePooling = true →
    generatedFor modelRunnerOutput r = [] ∧ proposedFor modelRunnerOutput r = [] ∧
      (pooledFor modelRunnerOutput r = none ↔ request.numComputedTokens < request.numPromptTokens)

/-- The results of a step, for the requests that are still there. -/
structure Answers (s : Scheduler H) (schedulerOutput : SchedulerOutput)
    (modelRunnerOutput : ModelRunnerOutput) : Prop where
  scheduled : ∀ r ∈ s.running, r ∈ schedulerOutput.numScheduledTokens.keys →
    AnswersFor modelRunnerOutput r (s.request r)
      (schedulerOutput.scheduledSpecDecodeTokens.findD r []).length
  others : ∀ r, r ∉ schedulerOutput.numScheduledTokens.keys →
    modelRunnerOutput.reqIdToIndex.find r = none

instance {modelRunnerOutput : ModelRunnerOutput} {r : RequestId} {request : Request H}
    {numDrafts : ℕ} : Decidable (AnswersFor modelRunnerOutput r request numDrafts) :=
  decidable_of_iff
    ((request.numComputedTokens < request.numTokens →
        generatedFor modelRunnerOutput r = [] ∧ proposedFor modelRunnerOutput r = []) ∧
      (request.numTokens ≤ request.numComputedTokens → request.usePooling = false →
        generatedFor modelRunnerOutput r ≠ [] ∧
          (generatedFor modelRunnerOutput r).length ≤ numDrafts + 1) ∧
      (request.usePooling = true →
        generatedFor modelRunnerOutput r = [] ∧ proposedFor modelRunnerOutput r = [] ∧
          (pooledFor modelRunnerOutput r = none ↔
            request.numComputedTokens < request.numPromptTokens)))
    ⟨fun h => ⟨h.1, h.2.1, h.2.2⟩, fun h => ⟨h.prefill, h.sampled, h.pooling⟩⟩

instance {s : Scheduler H} {schedulerOutput : SchedulerOutput}
    {modelRunnerOutput : ModelRunnerOutput} :
    Decidable (Answers s schedulerOutput modelRunnerOutput) :=
  decidable_of_iff
    ((∀ r ∈ s.running, r ∈ schedulerOutput.numScheduledTokens.keys →
        AnswersFor modelRunnerOutput r (s.request r)
          (schedulerOutput.scheduledSpecDecodeTokens.findD r []).length) ∧
      ∀ r ∈ modelRunnerOutput.reqIdToIndex.keys, r ∈ schedulerOutput.numScheduledTokens.keys)
    ⟨fun h => ⟨h.1, fun r hr => (Dict.find_eq_none_iff ..).mpr fun hkey => hr (h.2 r hkey)⟩,
      fun h => ⟨h.scheduled, fun r hkey => by
        by_contra hr
        exact (Dict.find_eq_none_iff ..).mp (h.others r hr) hkey⟩⟩

omit [DecidableEq H] in
/-- A request outside the batch gets no drafts. -/
theorem drafted_of_none {modelRunnerOutput : ModelRunnerOutput} {r : RequestId}
    (hnone : modelRunnerOutput.reqIdToIndex.find r = none) (request : Request H) :
    Scheduler.drafted modelRunnerOutput r request = request := by
  have hindex : modelRunnerOutput.specTokenIds.bind (Scheduler.atIndex modelRunnerOutput r) =
      none := by
    cases modelRunnerOutput.specTokenIds with
    | none => rfl
    | some drafts => rw [Option.bind_some, Scheduler.atIndex, hnone, Option.bind_none]
  rw [Scheduler.drafted, hindex]

omit [DecidableEq H] in
/-- A request that has no drafts left gets the proposed ones. -/
theorem drafted_specTokenIds (modelRunnerOutput : ModelRunnerOutput) (r : RequestId)
    {request : Request H} (hcleared : request.specTokenIds = []) :
    (Scheduler.drafted modelRunnerOutput r request).specTokenIds =
      proposedFor modelRunnerOutput r := by
  unfold Scheduler.drafted proposedFor
  split
  · rename_i hnone
    rw [hnone, hcleared, Option.getD_none]
  · rename_i drafts hsome
    rw [hsome, Option.getD_some]
    rfl

/-! ### Turns -/

/-- The scheduler, and the output whose results are not back. -/
structure Engine (H : Type) where
  scheduler : Scheduler H
  inFlight : Option SchedulerOutput

namespace Engine

def scheduledFor (e : Engine H) (r : RequestId) : Option ℕ :=
  e.inFlight.bind fun output => output.numScheduledTokens.find r

def draftsFor (e : Engine H) (r : RequestId) : List TokenId :=
  (e.inFlight.map fun output => output.scheduledSpecDecodeTokens.findD r []).getD []

end Engine

/-- The calls that may come at any time. -/
def Event.anytime : Event → Bool
  | .schedule _ => false
  | .updateFromOutput _ _ _ => false
  | _ => true

/-- A step of the engine. -/
inductive Engine.Step : Engine H → Event → Engine H → Prop
  | call {s s' : Scheduler H} {event : Event} {inFlight : Option SchedulerOutput}
      (hstep : Scheduler.Step s event s') (hanytime : event.anytime = true) :
      Step ⟨s, inFlight⟩ event ⟨s', inFlight⟩
  | schedule {s s' : Scheduler H} {output : SchedulerOutput} (hok : s.schedule = .ok (output, s')) :
      Step ⟨s, none⟩ (.schedule output) ⟨s', some output⟩
  | updateFromOutput {s s' : Scheduler H} {schedulerOutput : SchedulerOutput}
      {modelRunnerOutput : ModelRunnerOutput} {outputs : Dict ℕ (List EngineCoreOutput)}
      (hanswers : Answers s schedulerOutput modelRunnerOutput)
      (hok : s.updateFromOutput schedulerOutput modelRunnerOutput = .ok (outputs, s')) :
      Step ⟨s, some schedulerOutput⟩ (.updateFromOutput schedulerOutput modelRunnerOutput outputs)
        ⟨s', none⟩

/-- A step of the engine is a step of its scheduler. -/
theorem Engine.Step.scheduler {e e' : Engine H} {event : Event} (hstep : Engine.Step e event e') :
    Scheduler.Step e.scheduler event e'.scheduler := by
  cases hstep with
  | call hstep _ => exact hstep
  | schedule hok => exact .schedule hok
  | updateFromOutput _ hok => exact .updateFromOutput hok

theorem Engine.run_scheduler {e e' : Engine H} {events : List Event}
    (hrun : Run Engine.Step e events e') :
    Run Scheduler.Step e.scheduler events e'.scheduler :=
  hrun.map Engine.scheduler fun _ _ _ hstep => hstep.scheduler

/-! ### What the loops of `schedule` leave of a request -/

/-- Scheduling changes where a request stands and how far it is computed, and
nothing of what it asks for or holds. -/
structure Request.Reworks (request request' : Request H) : Prop where
  eq : request' = { request with
    status := request'.status
    numComputedTokens := request'.numComputedTokens
    specTokenIds := request'.specTokenIds
    isPrefillChunk := request'.isPrefillChunk
    numPreemptions := request'.numPreemptions
    numCachedTokens := request'.numCachedTokens }

namespace Request.Reworks

variable {request request' request'' : Request H}

omit [DecidableEq H]

theorem refl (request : Request H) : Reworks request request := ⟨rfl⟩

theorem trans (h : Reworks request request') (h' : Reworks request' request'') :
    Reworks request request'' := by
  refine ⟨?_⟩
  rw [h'.eq, h.eq]

theorem numTokens_eq (h : Reworks request request') : request'.numTokens = request.numTokens := by
  rw [h.eq]
  rfl

theorem numPromptTokens_eq (h : Reworks request request') :
    request'.numPromptTokens = request.numPromptTokens := by
  rw [h.eq]
  rfl

theorem mmFeatures_eq (h : Reworks request request') :
    request'.mmFeatures = request.mmFeatures := by
  rw [h.eq]

theorem usePooling_eq (h : Reworks request request') :
    request'.usePooling = request.usePooling := by
  rw [h.eq]

theorem outputTokenIds_eq (h : Reworks request request') :
    request'.outputTokenIds = request.outputTokenIds := by
  rw [h.eq]

theorem update {table : RequestId → Request H} {r : RequestId} (h : Reworks (table r) request')
    (r' : RequestId) : Reworks (table r') (Function.update table r request' r') := by
  by_cases hr : r' = r
  · subst hr
    rwa [Function.update_self]
  · rw [Function.update_of_ne hr]
    exact refl _

end Request.Reworks

namespace StepState

variable {l l' : StepState H}

omit [DecidableEq H] in
theorem disableSpeculation_reworks (s : Scheduler H) (r r' : RequestId) :
    (s.request r').Reworks ((disableSpeculation s r).request r') := by
  rcases disableSpeculation_eq s r with heq | heq
  · rw [heq]
    exact .refl _
  · rw [heq]
    exact Request.Reworks.update ⟨rfl⟩ r'

theorem Prepared.reworks {s s' : Scheduler H} {r : RequestId} (h : Prepared s s' r)
    (r' : RequestId) : (s.request r').Reworks (s'.request r') := by
  rcases h.table with heq | ⟨-, status, -, heq⟩
  · rw [heq]
    exact .refl _
  · rw [heq]
    exact Request.Reworks.update ⟨rfl⟩ r'

theorem Outcome.reworks (h : Outcome l l') (r' : RequestId) :
    (l.scheduler.request r').Reworks (l'.scheduler.request r') := by
  cases h with
  | rest hphase => exact .refl _
  | enter hphase => exact .refl _
  | pass hphase hr => exact disableSpeculation_reworks ..
  | takeUp hphase hr hn hbudget hspec hlen => exact disableSpeculation_reworks ..
  | commit hphase hok =>
      rw [commitRunning_request]
      exact Request.Reworks.update ⟨rfl⟩ r'
  | preempt hphase hok hvictim hstatus hfree hbatch hinputs =>
      exact Request.Reworks.update ⟨rfl⟩ r'
  | close hphase hs =>
      rcases hs with rfl | ⟨r, hs⟩
      · exact .refl _
      · exact hs.reworks r'
  | setAside hphase hs hfree hpop => exact hs.reworks r'
  | lookUp hphase hs hpreempted hhits hexternal hrunning hn hbudget hlen => exact hs.reworks r'
  | decline hphase hok => exact .refl _
  | accept hphase hok hpop hstatus hconnector => exact Request.Reworks.update ⟨rfl⟩ r'

theorem Loops.reworks (hloops : Loops l l') (r : RequestId) :
    (l.scheduler.request r).Reworks (l'.scheduler.request r) :=
  hloops.invariant (P := fun l' => (l.scheduler.request r).Reworks (l'.scheduler.request r))
    (.refl _) fun _ _ hstep h => h.trans (hstep.reworks r)

end StepState

end Pvllm
